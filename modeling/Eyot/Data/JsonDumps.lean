import Eyot.Data.JsonParse
import Eyot.Data.JsonText
import Eyot.Data.PyStr

/-! `json.dumps` as it is without arguments, and what `JSON.parse` makes of its text. -/

namespace Eyot

namespace JsonDumps

open JsonParse
open Scan (Spelling)

/-- What `ensure_ascii` leaves of a code point. -/
def escapeChar (c : PyChar) : Str :=
  match ESCAPE_DCT.find? fun e => e.1.toNat = c.val with
  | some e => ['\\', e.2]
  | none =>
    if 32 ≤ c.val ∧ c.val ≤ 126 then [Char.ofNat c.val] else unicodeEscape.text (PyStr.toUnits c)

def quote (s : PyStr) : Str := '"' :: (s.flatMap escapeChar ++ ['"'])

mutual
def dumps : Json PyStr → Str
  | .null => "null".toList
  | .bool true => "true".toList
  | .bool false => "false".toList
  | .num t => t.map fun c => Char.ofNat c.val
  | .str s => quote s
  | .arr vs => '[' :: dumpsItems vs
  | .obj kvs => '\x7b' :: dumpsMembers kvs

/-- The items of an array and the bracket that closes it. -/
def dumpsItems : List (Json PyStr) → Str
  | [] => [']']
  | [v] => dumps v ++ [']']
  | v :: w :: vs => dumps v ++ ',' :: ' ' :: dumpsItems (w :: vs)

def dumpsMembers : List (PyStr × Json PyStr) → Str
  | [] => ['\x7d']
  | [(k, v)] => quote k ++ ':' :: ' ' :: (dumps v ++ ['\x7d'])
  | (k, v) :: kv :: kvs => quote k ++ ':' :: ' ' :: (dumps v ++ ',' :: ' ' :: dumpsMembers (kv :: kvs))
end

/-! JSON content: numbers have numerals, and the keys of an object are different strings. -/

mutual
def isJson : Json PyStr → Bool
  | .num t => isNumeral (PyStr.encode t)
  | .arr vs => isJsonAll vs
  | .obj kvs => decide (kvs.map fun kv => PyStr.encode kv.1).Nodup && isJsonMembers kvs
  | _ => true

def isJsonAll : List (Json PyStr) → Bool
  | [] => true
  | v :: vs => isJson v && isJsonAll vs

def isJsonMembers : List (PyStr × Json PyStr) → Bool
  | [] => true
  | (_, v) :: kvs => isJson v && isJsonMembers kvs
end

section Reading

-- What the number of a numeral prints as.
variable (number : Units → Units)

mutual
/-- The same value in JavaScript. -/
def inUnits : Json PyStr → Host.Value
  | .null => .null
  | .bool b => .bool b
  | .num t => .num (number (PyStr.encode t))
  | .str s => .str (PyStr.encode s)
  | .arr vs => .arr (inUnitsAll vs)
  | .obj kvs => .obj (inUnitsMembers kvs)

def inUnitsAll : List (Json PyStr) → List Host.Value
  | [] => []
  | v :: vs => inUnits v :: inUnitsAll vs

def inUnitsMembers : List (PyStr × Json PyStr) → List (Units × Host.Value)
  | [] => []
  | (k, v) :: kvs => (PyStr.encode k, inUnits v) :: inUnitsMembers kvs
end

/-- A text of ASCII characters, by its units. -/
def ascii (t : Str) : Units := t.map unit

theorem ascii_append (s t : Str) : ascii (s ++ t) = ascii s ++ ascii t := List.map_append

theorem ascii_cons (c : Char) (t : Str) : ascii (c :: t) = unit c :: ascii t := rfl

/-! Strings. -/

/-- A piece of a string is read as those units. -/
def Spells (piece us : Units) : Prop :=
  ∀ l, readString (piece ++ l) = (readString l).map fun r => (us ++ r.1, r.2)

theorem spells_nil : Spells [] [] := by
  intro l
  cases h : readString l with
  | none => rw [List.nil_append, h]; rfl
  | some r => rw [List.nil_append, h]; rfl

theorem Spells.append {p q us vs : Units} (hp : Spells p us) (hq : Spells q vs) :
    Spells (p ++ q) (us ++ vs) := by
  intro l
  rw [List.append_assoc, hp, hq, Option.map_map]
  simp only [Function.comp_def, List.append_assoc]

theorem spells_plain {u : UInt16} (hquote : u ≠ unit '"') (hslash : u ≠ unit '\\')
    (hvisible : ¬ u < unit ' ') : Spells [u] [u] := by
  intro l
  rw [List.singleton_append, readString.eq_def]
  simp only [if_neg hquote, if_neg hslash, if_neg hvisible, List.singleton_append]

theorem spells_escape {e v : UInt16} (hu : e ≠ unit 'u') (h : escapes.lookup e = some v) :
    Spells [unit '\\', e] [v] := by
  intro l
  have hquote : unit '\\' ≠ unit '"' := by decide
  rw [List.cons_append, List.singleton_append, readString.eq_def]
  simp only [if_neg hquote, if_neg hu, h, List.singleton_append]
  rfl

theorem hexValue?_digitChar : ∀ n : Fin 16,
    hexValue? (unit (Nat.digitChar n.val)) = some n.val.toUInt16 := by decide

theorem hexValue?_mod (n : Nat) :
    hexValue? (unit (Nat.digitChar (n % 16))) = some (n % 16).toUInt16 :=
  hexValue?_digitChar ⟨n % 16, Nat.mod_lt n (by omega)⟩

theorem spells_unicode (u : UInt16) : Spells (ascii (unicodeEscape.spell u)) [u] := by
  intro l
  have hquote : unit '\\' ≠ unit '"' := by decide
  have hvalue : ((u.toNat / 4096 % 16).toUInt16 * 16 + (u.toNat / 256 % 16).toUInt16) * 256 +
      (u.toNat / 16 % 16).toUInt16 * 16 + (u.toNat % 16).toUInt16 = u := by
    apply UInt16.toNat_inj.mp
    have := u.toNat_lt
    simp only [UInt16.toNat_add, UInt16.toNat_mul, Nat.toUInt16, UInt16.toNat_ofNat']
    simp only [UInt16.reduceToNat]
    omega
  change readString (unit '\\' :: unit 'u' :: unit _ :: unit _ :: unit _ :: unit _ :: l) = _
  rw [readString.eq_def]
  simp only [if_neg hquote, if_true, hexValue?_mod, Option.bind_eq_bind, Option.bind_some, hvalue,
    List.singleton_append]

theorem spells_unicodeText (us : Units) : Spells (ascii (unicodeEscape.text us)) us := by
  induction us with
  | nil => exact spells_nil
  | cons u us ih =>
    rw [Spelling.text_cons, ascii_append]
    exact (spells_unicode u).append ih

theorem unit_ofNat {n : Nat} (h : n < 128) : unit (Char.ofNat n) = n.toUInt16 := by
  have hvalid : n.isValidChar := .inl (by omega)
  rw [unit, Char.ofNat, dif_pos hvalid]
  rfl

theorem toUnits_basic {c : PyChar} (h : c.val < 0x10000) :
    PyStr.toUnits c = [c.val.toUInt16] :=
  if_pos h

theorem escapes_dct : ∀ e ∈ ESCAPE_DCT, unit e.2 ≠ unit 'u' ∧
    escapes.lookup (unit e.2) = some (unit e.1) ∧ e.1.toNat < 128 := by decide

theorem spells_escapeChar (c : PyChar) : Spells (ascii (escapeChar c)) (PyStr.toUnits c) := by
  cases hfind : ESCAPE_DCT.find? fun e => e.1.toNat = c.val with
  | some e =>
    obtain ⟨hu, hlookup, hascii⟩ := escapes_dct e (List.mem_of_find?_eq_some hfind)
    have hcode : e.1.toNat = c.val := by simpa using List.find?_some hfind
    rw [toUnits_basic (by omega), ← hcode, escapeChar, hfind]
    exact spells_escape hu hlookup
  | none =>
    rw [escapeChar, hfind]
    dsimp only
    split
    · rename_i hprint
      have hnone : ∀ e ∈ ESCAPE_DCT, e.1.toNat ≠ c.val := by simpa using hfind
      have hquote : c.val ≠ 34 := (hnone ('"', '"') (by decide)).symm
      have hslash : c.val ≠ 92 := (hnone ('\\', '\\') (by decide)).symm
      rw [toUnits_basic (by omega), ascii_cons, unit_ofNat (by omega)]
      have hval : c.val.toUInt16.toNat = c.val := toNat_toUInt16 (by omega)
      apply spells_plain
      · rw [← UInt16.toNat_inj.ne, hval]
        exact hquote
      · rw [← UInt16.toNat_inj.ne, hval]
        exact hslash
      · rw [UInt16.lt_iff_toNat_lt, hval]
        exact Nat.not_lt.mpr hprint.1
    · exact spells_unicodeText _

theorem spells_string (s : PyStr) : Spells (ascii (s.flatMap escapeChar)) (PyStr.encode s) := by
  induction s with
  | nil => exact spells_nil
  | cons c s ih =>
    rw [List.flatMap_cons, ascii_append, PyStr.encode, List.flatMap_cons]
    exact (spells_escapeChar c).append ih

theorem readString_quote (s : PyStr) (rest : Units) :
    readString (ascii (s.flatMap escapeChar) ++ unit '"' :: rest) = some (PyStr.encode s, rest) := by
  rw [spells_string, readString.eq_def]
  simp

/-! Numerals. -/

theorem all_of_head {t : Units} {u : UInt16} (hu : isNumeralUnit u = true)
    (h : (if t.head? = some u then t.tail else t).all isNumeralUnit = true) :
    t.all isNumeralUnit = true := by
  cases t with
  | nil => rfl
  | cons v t =>
    split at h
    · rename_i hv
      obtain rfl : v = u := by simpa using hv
      rw [List.all_cons, hu]
      exact h
    · exact h

theorem all_of_digits {t : Units} (h : t.all isDigit = true) : t.all isNumeralUnit = true := by
  rw [List.all_eq_true] at h ⊢
  intro u hu
  rw [isNumeralUnit, h u hu, Bool.true_or]

theorem all_digits_append {t : Units} (h : (t.dropWhile isDigit).all isNumeralUnit = true) :
    t.all isNumeralUnit = true := by
  rw [← List.takeWhile_append_dropWhile (p := isDigit) (l := t), List.all_append, h, Bool.and_true]
  exact all_of_digits List.all_takeWhile

theorem isExponent_all {t : Units} (h : isExponent t = true) : t.all isNumeralUnit = true := by
  cases t with
  | nil => rfl
  | cons u l =>
    simp only [isExponent, Bool.and_eq_true, Bool.or_eq_true, decide_eq_true_eq] at h
    obtain ⟨⟨hu, -⟩, hdigits⟩ := h
    have hl : l.all isNumeralUnit = true := by
      cases l with
      | nil => rfl
      | cons v l =>
        split at hdigits
        · rename_i hsign
          have hv : isNumeralUnit v = true := by
            obtain hv | hv : v = unit '+' ∨ v = unit '-' := by simpa using hsign
            · rw [hv]
              decide
            · rw [hv]
              decide
          rw [List.all_cons, hv]
          exact all_of_digits hdigits
        · exact all_of_digits hdigits
    have hu : isNumeralUnit u = true := by
      obtain rfl | rfl := hu
      · decide
      · decide
    rw [List.all_cons, hu, hl]
    rfl

theorem isFraction_all {t : Units} (h : isFraction t = true) : t.all isNumeralUnit = true := by
  cases t with
  | nil => rfl
  | cons u l =>
    rw [isFraction] at h
    split at h
    · rename_i hu
      rw [Bool.and_eq_true] at h
      have hdot : isNumeralUnit (unit '.') = true := by decide
      rw [List.all_cons, hu, hdot]
      exact all_digits_append (isExponent_all h.2)
    · exact isExponent_all h

theorem isNumeral_all {t : Units} (h : isNumeral t = true) : t.all isNumeralUnit = true := by
  simp only [isNumeral, Bool.and_eq_true] at h
  have hminus : isNumeralUnit (unit '-') = true := by decide
  exact all_of_head hminus (all_digits_append (isFraction_all h.2))

/-- Nothing that a numeral could go on with. -/
def Stops (rest : Units) : Prop := ∀ u, rest.head? = some u → isNumeralUnit u = false

theorem takeWhile_numeral {t rest : Units} (ht : t.all isNumeralUnit = true) (h : Stops rest) :
    (t ++ rest).takeWhile isNumeralUnit = t := by
  rw [List.takeWhile_append_of_pos (List.all_eq_true.mp ht)]
  cases rest with
  | nil => simp
  | cons u rest => simp [h u rfl]

theorem numeral_range {u : UInt16} (h : isNumeralUnit u = true) :
    32 ≤ u.toNat ∧ u.toNat < 127 := by
  rw [isNumeralUnit, Bool.or_eq_true] at h
  obtain hdigit | hsign := h
  · simp only [isDigit, Bool.and_eq_true, decide_eq_true_eq, UInt16.le_iff_toNat_le] at hdigit
    have hzero : (unit '0').toNat = 48 := rfl
    have hnine : (unit '9').toNat = 57 := rfl
    omega
  · have hall : (units "+-.Ee").all (fun v => 32 ≤ v.toNat ∧ v.toNat < 127) = true := by decide
    simpa using List.all_eq_true.mp hall u (List.contains_iff_mem.mp hsign)

theorem numeral_code {c : PyChar} (h : (PyStr.toUnits c).all isNumeralUnit = true) :
    32 ≤ c.val ∧ c.val < 127 := by
  have hlt := c.isLt
  by_cases hbasic : c.val < 0x10000
  · rw [toUnits_basic hbasic, List.all_cons, Bool.and_eq_true] at h
    have hrange := numeral_range h.1
    rwa [toNat_toUInt16 hbasic] at hrange
  · rw [PyStr.toUnits, if_neg hbasic, List.all_cons, Bool.and_eq_true] at h
    have hrange := numeral_range h.1
    rw [toNat_toUInt16 (by omega)] at hrange
    omega

theorem ascii_numeral {t : PyStr} (h : (PyStr.encode t).all isNumeralUnit = true) :
    ascii (t.map fun c => Char.ofNat c.val) = PyStr.encode t := by
  induction t with
  | nil => rfl
  | cons c t ih =>
    rw [PyStr.encode, List.flatMap_cons, List.all_append, Bool.and_eq_true] at h
    have hc := numeral_code h.1
    rw [List.map_cons, ascii_cons, ih h.2, unit_ofNat (by omega), PyStr.encode, PyStr.encode,
      List.flatMap_cons, toUnits_basic (by omega), List.singleton_append]

/-! Values. -/

theorem readScalar_word {w : String} {n : Nat} {v : Host.Value} (rest : Units)
    (h : (w, n, v) ∈ [("null", 4, Json.null), ("true", 4, .bool true), ("false", 5, .bool false)]) :
    readScalar number (ascii w.toList ++ rest) = some (v, rest) := by
  simp only [List.mem_cons, Prod.mk.injEq, List.not_mem_nil, or_false] at h
  obtain ⟨rfl, rfl, rfl⟩ | ⟨rfl, rfl, rfl⟩ | ⟨rfl, rfl, rfl⟩ := h
  · rfl
  · rfl
  · rfl

theorem not_startsWith {w : String} {c : Char} {cs : Str} (hw : w.toList = c :: cs)
    (hc : isNumeralUnit (unit c) = false) {u : UInt16} (hu : isNumeralUnit u = true)
    (hcode : (unit c).toNat = c.toNat) (l : Units) : portalText.startsWith w (u :: l) = false := by
  rw [Alphabet.startsWith, Alphabet.reads, decide_eq_false_iff_not, hw, ← String.length_toList, hw,
    List.length_cons, List.take_succ_cons, List.map_cons, List.map_cons]
  intro h
  have hnat : u.toNat = (unit c).toNat := (List.cons.inj h).1.trans hcode.symm
  rw [UInt16.toNat_inj.mp hnat, hc] at hu
  cases hu

theorem readScalar_numeral {t rest : Units} (ht : isNumeral t = true) (h : Stops rest) :
    readScalar number (t ++ rest) = some (.num (number t), rest) := by
  have hall := isNumeral_all ht
  cases t with
  | nil => cases ht
  | cons u t =>
    have hu : isNumeralUnit u = true := by
      rw [List.all_cons, Bool.and_eq_true] at hall
      exact hall.1
    have hnull := not_startsWith (w := "null") rfl rfl hu rfl (t ++ rest)
    have htrue := not_startsWith (w := "true") rfl rfl hu rfl (t ++ rest)
    have hfalse := not_startsWith (w := "false") rfl rfl hu rfl (t ++ rest)
    rw [readScalar, takeWhile_numeral hall h, List.cons_append, hnull, htrue, hfalse]
    simp [ht]

theorem readValue_space (n : Nat) (l : Units) :
    readValue number n (unit ' ' :: l) = readValue number n l := by
  cases n with
  | zero => rfl
  | succ n => rfl

theorem readItems_space (n : Nat) (l : Units) :
    readItems number n (unit ' ' :: l) = readItems number n l := by
  cases n with
  | zero => rfl
  | succ n => rw [readItems, readItems, readValue_space]

theorem readMembers_space (n : Nat) (l : Units) :
    readMembers number n (unit ' ' :: l) = readMembers number n l := by
  cases n with
  | zero => rfl
  | succ n => rfl

theorem foldl_put (done kvs : List (Units × Host.Value))
    (h : ((done ++ kvs).map Prod.fst).Nodup) : kvs.foldl put done = done ++ kvs := by
  induction kvs generalizing done with
  | nil => simp
  | cons kv kvs ih =>
    have hnew : (done.any fun m => m.1 = kv.1) = false := by
      rw [List.map_append, List.nodup_append] at h
      rw [List.any_eq_false]
      intro m hm heq
      exact h.2.2 m.1 (List.mem_map_of_mem hm) kv.1 (by simp) (by simpa using heq)
    rw [List.foldl_cons, put, hnew]
    simpa using ih (done ++ [kv]) (by simpa using h)

theorem keys_inUnitsMembers (kvs : List (PyStr × Json PyStr)) :
    (inUnitsMembers number kvs).map Prod.fst = kvs.map fun kv => PyStr.encode kv.1 := by
  induction kvs with
  | nil => rfl
  | cons kv kvs ih => rw [inUnitsMembers, List.map_cons, ih, List.map_cons]

theorem skipSpace_cons {u : UInt16} (h : isSpace u = false) (l : Units) :
    skipSpace (u :: l) = u :: l := by
  rw [skipSpace, List.dropWhile_cons, h]
  rfl

theorem not_space_of_mem {u : UInt16} (hu : u ∉ units " \t\n\r\"[\x7b") : isSpace u = false := by
  have hne : ∀ c, unit c ∈ units " \t\n\r\"[\x7b" → u ≠ unit c := by
    rintro c hc rfl
    exact hu hc
  simp [isSpace, hne ' ' (by decide), hne '\t' (by decide), hne '\n' (by decide),
    hne '\r' (by decide)]

theorem readValue_scalar {u : UInt16} (hu : u ∉ units " \t\n\r\"[\x7b") (n : Nat) (l : Units) :
    readValue number (n + 1) (u :: l) = readScalar number (u :: l) := by
  have hne : ∀ c, unit c ∈ units " \t\n\r\"[\x7b" → u ≠ unit c := by
    rintro c hc rfl
    exact hu hc
  rw [readValue, skipSpace_cons (not_space_of_mem hu)]
  simp only [if_neg (hne '"' (by decide)), if_neg (hne '[' (by decide)),
    if_neg (hne '\x7b' (by decide))]

theorem not_mem_of_numeral {u : UInt16} (hu : isNumeralUnit u = true) :
    u ∉ units " \t\n\r\"[\x7b" := by
  have hall : (units " \t\n\r\"[\x7b").all (fun v => !isNumeralUnit v) = true := by decide
  intro h
  have hnot := List.all_eq_true.mp hall u h
  rw [hu] at hnot
  cases hnot

theorem not_space_of_numeral {u : UInt16} (hu : isNumeralUnit u = true) : isSpace u = false :=
  not_space_of_mem (not_mem_of_numeral hu)

theorem readValue_numeral {t : Units} (ht : isNumeral t = true) (n : Nat) (rest : Units) :
    readValue number (n + 1) (t ++ rest) = readScalar number (t ++ rest) := by
  have hall := isNumeral_all ht
  cases t with
  | nil => cases ht
  | cons u t =>
    rw [List.all_cons, Bool.and_eq_true] at hall
    exact readValue_scalar number (not_mem_of_numeral hall.1) n (t ++ rest)

/-- A bracket that closes an array starts no item. -/
theorem readItems_bracket {l : Units} (h : (skipSpace l).head? = some (unit ']')) (n : Nat) :
    readItems number n l = none := by
  obtain ⟨rest, hl⟩ := List.head?_eq_some_iff.mp h
  have hvalue : ∀ m, readValue number m l = none := by
    intro m
    cases m with
    | zero => rfl
    | succ m =>
      rw [readValue, hl]
      rfl
  cases n with
  | zero => rfl
  | succ n => rw [readItems, hvalue]; rfl

theorem readMembers_brace {l : Units} (h : (skipSpace l).head? = some (unit '\x7d')) (n : Nat) :
    readMembers number n l = none := by
  obtain ⟨rest, hl⟩ := List.head?_eq_some_iff.mp h
  cases n with
  | zero => rfl
  | succ n =>
    rw [readMembers, hl]
    rfl

theorem readValue_array (n : Nat) (l : Units) : readValue number (n + 1) (unit '[' :: l) =
    if (skipSpace l).head? = some (unit ']') then some (.arr [], (skipSpace l).tail)
    else (readItems number n l).map fun r => (.arr r.1, r.2) := rfl

theorem readValue_object (n : Nat) (l : Units) : readValue number (n + 1) (unit '\x7b' :: l) =
    if (skipSpace l).head? = some (unit '\x7d') then some (.obj [], (skipSpace l).tail)
    else (readMembers number n l).map fun r => (.obj (r.1.foldl put []), r.2) := rfl

theorem readMembers_member (n : Nat) (k : PyStr) (l : Units) :
    readMembers number (n + 1) (ascii (quote k) ++ unit ':' :: unit ' ' :: l) =
      (readValue number n l).bind fun r =>
        match skipSpace r.2 with
        | [] => none
        | u :: l =>
          if u = unit ',' then
            (readMembers number n l).map fun q => ((PyStr.encode k, r.1) :: q.1, q.2)
          else if u = unit '\x7d' then some ([(PyStr.encode k, r.1)], l)
          else none := by
  rw [quote, ascii_cons, ascii_append, List.cons_append, List.append_assoc, readMembers]
  change (readString (ascii (k.flatMap escapeChar) ++ unit '"' :: unit ':' :: unit ' ' :: l) >>= _) = _
  rw [readString_quote]
  change (readValue number n (unit ' ' :: l) >>= _) = _
  rw [readValue_space]
  rfl

theorem stops_cons {u : UInt16} (h : isNumeralUnit u = false) (rest : Units) :
    Stops (u :: rest) := by
  intro v hv
  cases hv
  exact h

mutual
theorem readValue_dumps (v : Json PyStr) (hv : isJson v = true) {n : Nat}
    (hn : 2 * (dumps v).length < n) {rest : Units} (hrest : Stops rest) :
    readValue number n (ascii (dumps v) ++ rest) = some (inUnits number v, rest) := by
  match n, v with
  | n + 1, .null =>
    exact readScalar_word number (w := "null") (n := 4) (v := .null) rest (by simp)
  | n + 1, .bool true =>
    exact readScalar_word number (w := "true") (n := 4) (v := .bool true) rest (by simp)
  | n + 1, .bool false =>
    exact readScalar_word number (w := "false") (n := 5) (v := .bool false) rest (by simp)
  | n + 1, .num t =>
    rw [dumps, ascii_numeral (isNumeral_all hv), inUnits, ← readScalar_numeral number hv hrest]
    exact readValue_numeral number hv n rest
  | n + 1, .str s =>
    rw [dumps, quote, ascii_cons, ascii_append, List.cons_append, List.append_assoc]
    change (readString _).map _ = _
    rw [ascii_cons, List.cons_append, readString_quote]
    rfl
  | n + 1, .arr [] => rfl
  | n + 1, .arr (v :: vs) =>
    have hlen : (dumps (.arr (v :: vs))).length = (dumpsItems (v :: vs)).length + 1 := rfl
    have hitems := readItems_dumps v vs hv (n := n) (by omega) rest
    have hopen : (skipSpace (ascii (dumpsItems (v :: vs)) ++ rest)).head? ≠ some (unit ']') := by
      intro h
      rw [readItems_bracket number h] at hitems
      cases hitems
    rw [dumps, ascii_cons, List.cons_append, readValue_array, if_neg hopen, hitems]
    rfl
  | n + 1, .obj [] => rfl
  | n + 1, .obj (kv :: kvs) =>
    have hlen : (dumps (.obj (kv :: kvs))).length = (dumpsMembers (kv :: kvs)).length + 1 := rfl
    simp only [isJson, Bool.and_eq_true, decide_eq_true_eq] at hv
    have hmembers := readMembers_dumps kv kvs hv.2 (n := n) (by omega) rest
    have hopen : (skipSpace (ascii (dumpsMembers (kv :: kvs)) ++ rest)).head? ≠
        some (unit '\x7d') := by
      intro h
      rw [readMembers_brace number h] at hmembers
      cases hmembers
    rw [dumps, ascii_cons, List.cons_append, readValue_object, if_neg hopen, hmembers,
      Option.map_some, foldl_put]
    · rfl
    · rw [List.nil_append, keys_inUnitsMembers]
      exact hv.1

theorem readItems_dumps (v : Json PyStr) (vs : List (Json PyStr)) (hvs : isJsonAll (v :: vs) = true)
    {n : Nat} (hn : 2 * (dumpsItems (v :: vs)).length < n) (rest : Units) :
    readItems number n (ascii (dumpsItems (v :: vs)) ++ rest) =
      some (inUnitsAll number (v :: vs), rest) := by
  simp only [isJsonAll, Bool.and_eq_true] at hvs
  match n, vs with
  | n + 1, [] =>
    rw [dumpsItems, List.length_append, List.length_singleton] at hn
    have hstops : Stops (unit ']' :: rest) := stops_cons (by decide) rest
    rw [dumpsItems, ascii_append, List.append_assoc, readItems]
    change (readValue number n (ascii (dumps v) ++ unit ']' :: rest) >>= _) = _
    rw [readValue_dumps v hvs.1 (by omega) hstops]
    rfl
  | n + 1, w :: vs =>
    rw [dumpsItems, List.length_append, List.length_cons, List.length_cons] at hn
    have hitems := readItems_dumps w vs hvs.2 (n := n) (by omega) rest
    have hstops : Stops (unit ',' :: unit ' ' :: (ascii (dumpsItems (w :: vs)) ++ rest)) :=
      stops_cons (by decide) _
    rw [dumpsItems, ascii_append, List.append_assoc, readItems]
    change (readValue number n (ascii (dumps v) ++ unit ',' :: unit ' ' ::
      (ascii (dumpsItems (w :: vs)) ++ rest)) >>= _) = _
    rw [readValue_dumps v hvs.1 (by omega) hstops]
    change (readItems number n (unit ' ' :: (ascii (dumpsItems (w :: vs)) ++ rest))).map _ = _
    rw [readItems_space, hitems]
    rfl

theorem readMembers_dumps (kv : PyStr × Json PyStr) (kvs : List (PyStr × Json PyStr))
    (hkvs : isJsonMembers (kv :: kvs) = true) {n : Nat}
    (hn : 2 * (dumpsMembers (kv :: kvs)).length < n) (rest : Units) :
    readMembers number n (ascii (dumpsMembers (kv :: kvs)) ++ rest) =
      some (inUnitsMembers number (kv :: kvs), rest) := by
  simp only [isJsonMembers, Bool.and_eq_true] at hkvs
  match n, kv, kvs with
  | n + 1, (k, v), [] =>
    simp only [dumpsMembers, List.length_append, List.length_cons] at hn
    have hstops : Stops (unit '\x7d' :: rest) := stops_cons (by decide) rest
    have hvalue := readValue_dumps v hkvs.1 (n := n) (by omega) hstops
    rw [dumpsMembers, ascii_append, List.append_assoc, ascii_cons, ascii_cons, ascii_append,
      List.cons_append, List.cons_append, List.append_assoc, readMembers_member]
    change (readValue number n (ascii (dumps v) ++ unit '\x7d' :: rest)).bind _ = _
    rw [hvalue]
    rfl
  | n + 1, (k, v), kv :: kvs =>
    simp only [dumpsMembers, List.length_append, List.length_cons] at hn
    have hmembers := readMembers_dumps kv kvs hkvs.2 (n := n) (by omega) rest
    have hstops : Stops (unit ',' :: unit ' ' :: (ascii (dumpsMembers (kv :: kvs)) ++ rest)) :=
      stops_cons (by decide) _
    have hvalue := readValue_dumps v hkvs.1 (n := n) (by omega) hstops
    rw [dumpsMembers, ascii_append, List.append_assoc, ascii_cons, ascii_cons, ascii_append,
      List.cons_append, List.cons_append, List.append_assoc, readMembers_member]
    change (readValue number n (ascii (dumps v) ++ unit ',' :: unit ' ' ::
      (ascii (dumpsMembers (kv :: kvs)) ++ rest))).bind _ = _
    rw [hvalue]
    change (readMembers number n (unit ' ' :: (ascii (dumpsMembers (kv :: kvs)) ++ rest))).map _ = _
    rw [readMembers_space, hmembers]
    rfl
end

theorem skipSpace_dumps (v : Json PyStr) (hv : isJson v = true) :
    skipSpace (ascii (dumps v)) = ascii (dumps v) := by
  match v with
  | .null => rfl
  | .bool true => rfl
  | .bool false => rfl
  | .str s => rfl
  | .arr vs => rfl
  | .obj kvs => rfl
  | .num t =>
    rw [dumps, ascii_numeral (isNumeral_all hv)]
    cases henc : PyStr.encode t with
    | nil => rfl
    | cons u l =>
      have hall := isNumeral_all hv
      rw [henc, List.all_cons, Bool.and_eq_true] at hall
      exact skipSpace_cons (not_space_of_numeral hall.1) l

/-- What is written with `json.dumps` is read back with `JSON.parse`. -/
theorem parse_dumps (v : Json PyStr) (hv : isJson v = true) :
    parse number (ascii (dumps v)) = some (inUnits number v) := by
  have hfuel : 2 * (dumps v).length < 2 * (ascii (dumps v)).length + 1 := by
    rw [ascii, List.length_map]
    omega
  have hend : Stops [] := nofun
  have hvalue := readValue_dumps number v hv hfuel hend
  rw [List.append_nil] at hvalue
  rw [parse, skipSpace_dumps v hv, hvalue]
  rfl

end Reading

/-! The text is one line of ASCII. -/

def isPrintable (c : Char) : Bool := 32 ≤ c.toNat && c.toNat < 127

theorem printable_ofNat {n : Nat} (h : 32 ≤ n ∧ n < 127) : isPrintable (Char.ofNat n) = true := by
  have hvalid : n.isValidChar := .inl (by omega)
  have hcode : (Char.ofNat n).toNat = n := by
    rw [Char.ofNat, dif_pos hvalid]
    rfl
  rw [isPrintable, hcode]
  simpa using h

theorem printable_digitChar (n : Nat) : isPrintable (Nat.digitChar (n % 16)) = true := by
  have hdigit : ∀ d : Fin 16, isPrintable (Nat.digitChar d.val) = true := by decide
  exact hdigit ⟨n % 16, Nat.mod_lt n (by omega)⟩

theorem printable_unicode (u : UInt16) : (unicodeEscape.spell u).all isPrintable = true := by
  simp only [unicodeEscape, hex4, List.map_cons, List.map_nil, List.all_cons, printable_digitChar]
  rfl

theorem printable_escapeChar (c : PyChar) : (escapeChar c).all isPrintable = true := by
  rw [escapeChar]
  split
  · rename_i e hfind
    have hdct : ∀ e ∈ ESCAPE_DCT, isPrintable e.2 = true := by decide
    rw [List.all_cons, List.all_cons, hdct e (List.mem_of_find?_eq_some hfind)]
    rfl
  · split
    · rename_i hprint
      rw [List.all_cons, printable_ofNat ⟨hprint.1, by omega⟩]
      rfl
    · rw [Spelling.text, List.all_flatMap]
      exact List.all_eq_true.mpr fun u _ => printable_unicode u

theorem printable_quote (s : PyStr) : (quote s).all isPrintable = true := by
  have hquote : isPrintable '"' = true := by decide
  rw [quote, List.all_cons, List.all_append, List.all_flatMap, List.all_cons, hquote]
  have hall : s.all (fun c => (escapeChar c).all isPrintable) = true :=
    List.all_eq_true.mpr fun c _ => printable_escapeChar c
  rw [hall]
  rfl

theorem printable_numeral {t : PyStr} (h : (PyStr.encode t).all isNumeralUnit = true) :
    (t.map fun c => Char.ofNat c.val).all isPrintable = true := by
  induction t with
  | nil => rfl
  | cons c t ih =>
    rw [PyStr.encode, List.flatMap_cons, List.all_append, Bool.and_eq_true] at h
    rw [List.map_cons, List.all_cons, printable_ofNat (numeral_code h.1), ih h.2]
    rfl

mutual
theorem printable_dumps (v : Json PyStr) (hv : isJson v = true) :
    (dumps v).all isPrintable = true := by
  match v with
  | .null => rfl
  | .bool true => rfl
  | .bool false => rfl
  | .num t => exact printable_numeral (isNumeral_all hv)
  | .str s => exact printable_quote s
  | .arr vs =>
    rw [dumps, List.all_cons, printable_dumpsItems vs hv]
    rfl
  | .obj kvs =>
    rw [isJson, Bool.and_eq_true] at hv
    rw [dumps, List.all_cons, printable_dumpsMembers kvs hv.2]
    rfl

theorem printable_dumpsItems (vs : List (Json PyStr)) (hvs : isJsonAll vs = true) :
    (dumpsItems vs).all isPrintable = true := by
  match vs with
  | [] => rfl
  | [v] =>
    rw [isJsonAll, Bool.and_eq_true] at hvs
    rw [dumpsItems, List.all_append, printable_dumps v hvs.1]
    rfl
  | v :: w :: vs =>
    rw [isJsonAll, Bool.and_eq_true] at hvs
    rw [dumpsItems, List.all_append, List.all_cons, List.all_cons, printable_dumps v hvs.1,
      printable_dumpsItems (w :: vs) hvs.2]
    rfl

theorem printable_dumpsMembers (kvs : List (PyStr × Json PyStr))
    (hkvs : isJsonMembers kvs = true) : (dumpsMembers kvs).all isPrintable = true := by
  match kvs with
  | [] => rfl
  | [(k, v)] =>
    rw [isJsonMembers, Bool.and_eq_true] at hkvs
    rw [dumpsMembers, List.all_append, List.all_cons, List.all_cons, List.all_append,
      printable_quote, printable_dumps v hkvs.1]
    rfl
  | (k, v) :: kv :: kvs =>
    rw [isJsonMembers, Bool.and_eq_true] at hkvs
    rw [dumpsMembers, List.all_append, List.all_cons, List.all_cons, List.all_append,
      List.all_cons, List.all_cons, printable_quote, printable_dumps v hkvs.1,
      printable_dumpsMembers (kv :: kvs) hkvs.2]
    rfl
end

end JsonDumps

end Eyot
