import Mathlib.Data.Char
import Mathlib.Data.List.Lex
import Eyot.Data.Json
import Eyot.Data.Utf16
import Eyot.Library.StableSort

/-! What `json.dumps` writes with the separators `,` and `:`, and JSON values up to the order of
their keys. -/

universe u

namespace Eyot

open Scan

/-! Strings. -/

def hex4 (n : Nat) : Str :=
  [n / 4096 % 16, n / 256 % 16, n / 16 % 16, n % 16].map Nat.digitChar

theorem digitChar_inj : ∀ a < 16, ∀ b < 16, a.digitChar = b.digitChar → a = b := by decide

theorem hex4_inj {n m : Nat} (hn : n < 65536) (hm : m < 65536) (h : hex4 n = hex4 m) : n = m := by
  have hdigit {a b : Nat} : (a % 16).digitChar = (b % 16).digitChar → a % 16 = b % 16 :=
    digitChar_inj _ (Nat.mod_lt a (by omega)) _ (Nat.mod_lt b (by omega))
  simp only [hex4, List.map_cons, List.map_nil, List.cons.injEq, and_true] at h
  obtain ⟨h₃, h₂, h₁, h₀⟩ := h
  have h₃ := hdigit h₃
  have h₂ := hdigit h₂
  have h₁ := hdigit h₁
  have h₀ := hdigit h₀
  omega

def unicodeEscape : Spelling UInt16 Char where
  spell u := '\\' :: 'u' :: hex4 u.toNat
  spell_ne _ := List.cons_ne_nil _ _

theorem unicodeEscape_prefix (u v : UInt16) (x y : Str)
    (h : unicodeEscape.spell u ++ x = unicodeEscape.spell v ++ y) : u = v := by
  have hhex : hex4 u.toNat ++ x = hex4 v.toNat ++ y :=
    (List.cons.inj (List.cons.inj h).2).2
  have hlen : (hex4 u.toNat).length = (hex4 v.toNat).length := rfl
  exact UInt16.toNat_inj.mp
    (hex4_inj u.toNat_lt v.toNat_lt (List.append_inj hhex hlen).1)

def ESCAPE_DCT : List (Char × Char) :=
  [('\\', '\\'), ('"', '"'), ('\x08', 'b'), ('\x0c', 'f'), ('\n', 'n'), ('\r', 'r'), ('\t', 't')]

/-- What `ensure_ascii` leaves of a character. -/
def escape : Spelling Char Char where
  spell c := match ESCAPE_DCT.lookup c with
    | some e => ['\\', e]
    | none =>
      if ' ' ≤ c ∧ c ≤ '~' then [c] else unicodeEscape.text (utf16.spell c)
  spell_ne c := by
    split
    · exact List.cons_ne_nil _ _
    · split
      · exact List.cons_ne_nil _ _
      · exact fun h => utf16.spell_ne c (unicodeEscape.text_eq_nil.mp h)

def quote (s : Str) : Str := '"' :: (escape.text s ++ ['"'])

theorem ESCAPE_DCT_inj : ∀ p ∈ ESCAPE_DCT, ∀ q ∈ ESCAPE_DCT, p.2 = q.2 → p.1 = q.1 := by decide

theorem ESCAPE_DCT_ne_u : ∀ p ∈ ESCAPE_DCT, p.2 ≠ 'u' := by decide

theorem mem_of_lookup {α β : Type} [BEq α] [LawfulBEq α] {l : List (α × β)} {a : α} {b : β}
    (h : l.lookup a = some b) : (a, b) ∈ l := by
  obtain ⟨l₁, l₂, rfl, -⟩ := List.lookup_eq_some_iff.mp h
  simp

/-- The three ways a character is written. -/
theorem escape_cases (c : Char) :
    (∃ e, (c, e) ∈ ESCAPE_DCT ∧ escape.spell c = ['\\', e]) ∨
      (c ≠ '\\' ∧ c ≠ '"' ∧ escape.spell c = [c]) ∨
      escape.spell c = unicodeEscape.text (utf16.spell c) := by
  cases hlookup : ESCAPE_DCT.lookup c with
  | some e => exact .inl ⟨e, mem_of_lookup hlookup, by simp [escape, hlookup]⟩
  | none =>
    by_cases hprint : ' ' ≤ c ∧ c ≤ '~'
    · refine .inr (.inl ⟨?_, ?_, by simp [escape, hlookup, hprint]⟩)
      · rintro rfl
        cases hlookup
      · rintro rfl
        cases hlookup
    · exact .inr (.inr (by simp only [escape, hlookup, if_neg hprint]))

theorem unicodeEscape_text_cons {l : List UInt16} (hl : l ≠ []) :
    ∃ t, unicodeEscape.text l = '\\' :: 'u' :: t := by
  cases l with
  | nil => exact absurd rfl hl
  | cons u l => exact ⟨hex4 u.toNat ++ unicodeEscape.text l, rfl⟩

theorem escape_prefix (a b : Char) (x y : Str)
    (h : escape.spell a ++ x = escape.spell b ++ y) : a = b := by
  rcases escape_cases a with ⟨e, he, ha⟩ | ⟨hslash, -, ha⟩ | ha
  · rcases escape_cases b with ⟨f, hf, hb⟩ | ⟨hslash, -, hb⟩ | hb
    · rw [ha, hb] at h
      exact ESCAPE_DCT_inj _ he _ hf (List.cons.inj (List.cons.inj h).2).1
    · rw [ha, hb] at h
      exact absurd (List.cons.inj h).1.symm hslash
    · obtain ⟨t, ht⟩ := unicodeEscape_text_cons (utf16.spell_ne b)
      rw [ha, hb, ht] at h
      exact absurd (List.cons.inj (List.cons.inj h).2).1 (ESCAPE_DCT_ne_u _ he)
  · rcases escape_cases b with ⟨f, hf, hb⟩ | ⟨-, -, hb⟩ | hb
    · rw [ha, hb] at h
      exact absurd (List.cons.inj h).1 hslash
    · rw [ha, hb] at h
      exact (List.cons.inj h).1
    · obtain ⟨t, ht⟩ := unicodeEscape_text_cons (utf16.spell_ne b)
      rw [ha, hb, ht] at h
      exact absurd (List.cons.inj h).1 hslash
  · rcases escape_cases b with ⟨f, hf, hb⟩ | ⟨hslash, -, hb⟩ | hb
    · obtain ⟨t, ht⟩ := unicodeEscape_text_cons (utf16.spell_ne a)
      rw [ha, hb, ht] at h
      exact absurd (List.cons.inj (List.cons.inj h).2).1.symm (ESCAPE_DCT_ne_u _ hf)
    · obtain ⟨t, ht⟩ := unicodeEscape_text_cons (utf16.spell_ne a)
      rw [ha, hb, ht] at h
      exact absurd (List.cons.inj h).1.symm hslash
    · rw [ha, hb] at h
      obtain ⟨u, v, huv⟩ := Spelling.text_append_cancel unicodeEscape_prefix h
      exact utf16_prefix a b u v huv

theorem escape_head (c : Char) : (escape.spell c).head? ≠ some '"' := by
  rcases escape_cases c with ⟨e, -, hc⟩ | ⟨-, hquote, hc⟩ | hc
  · simp [hc]
  · simpa [hc] using hquote
  · obtain ⟨t, ht⟩ := unicodeEscape_text_cons (utf16.spell_ne c)
    simp [hc, ht]

/-- A string is read back off what starts with it. -/
theorem quote_cancel {s t x y : Str} (h : quote s ++ x = quote t ++ y) : s = t ∧ x = y := by
  have htail : escape.text s ++ '"' :: x = escape.text t ++ '"' :: y := by
    simpa [quote] using h
  exact Spelling.text_append_close escape_prefix escape_head htail

/-! Values. -/

namespace Json

def numeralChar (c : Char) : Bool := "+-.0123456789Ee".toList.contains c

mutual
def dumps : Json Str → Str
  | .null => "null".toList
  | .bool true => "true".toList
  | .bool false => "false".toList
  | .num t => t
  | .str s => quote s
  | .arr vs => '[' :: dumpsItems [] vs
  | .obj kvs => '\x7b' :: dumpsMembers [] kvs

/-- The items of an array, each behind the separator, and the bracket that closes it. -/
def dumpsItems (separator : Str) : List (Json Str) → Str
  | [] => [']']
  | v :: vs => separator ++ (v.dumps ++ dumpsItems [','] vs)

def dumpsMembers (separator : Str) : List (Str × Json Str) → Str
  | [] => ['\x7d']
  | (k, v) :: kvs => separator ++ (quote k ++ ':' :: (v.dumps ++ dumpsMembers [','] kvs))
end

mutual
/-- The numbers are numerals and no object has one key twice. -/
def wellFormed : Json Str → Bool
  | .num t => !t.isEmpty && t.all numeralChar
  | .arr vs => wellFormedAll vs
  | .obj kvs => decide (kvs.map Prod.fst).Nodup && wellFormedMembers kvs
  | _ => true

def wellFormedAll : List (Json Str) → Bool
  | [] => true
  | v :: vs => v.wellFormed && wellFormedAll vs

def wellFormedMembers : List (Str × Json Str) → Bool
  | [] => true
  | (_, v) :: kvs => v.wellFormed && wellFormedMembers kvs
end

theorem wellFormedAll_iff {vs : List (Json Str)} :
    wellFormedAll vs = true ↔ ∀ v ∈ vs, v.wellFormed = true := by
  induction vs with
  | nil => simp [wellFormedAll]
  | cons v vs ih => simp [wellFormedAll, ih]

theorem wellFormedMembers_iff {kvs : List (Str × Json Str)} :
    wellFormedMembers kvs = true ↔ ∀ kv ∈ kvs, kv.2.wellFormed = true := by
  induction kvs with
  | nil => simp [wellFormedMembers]
  | cons kv kvs ih => simp [wellFormedMembers, ih]

/-- The kinds of values, and that the first letter of its text gives a value away. -/
def kind : Json Str → Nat
  | .null => 0
  | .bool true => 1
  | .bool false => 2
  | .str _ => 3
  | .arr _ => 4
  | .obj _ => 5
  | .num _ => 6

def kindOf (c : Char) : Nat :=
  match ['n', 't', 'f', '"', '[', '\x7b'].idxOf? c with
  | some k => k
  | none => if numeralChar c then 6 else 7

theorem kind_ne (v : Json Str) : v.kind ≠ 7 := by
  cases v with
  | bool b => cases b <;> nofun
  | _ => nofun

theorem kindOf_numeral {c : Char} (h : numeralChar c = true) : kindOf c = 6 := by
  have hall : "+-.0123456789Ee".toList.all (fun d => kindOf d == 6) = true := by decide
  exact beq_iff_eq.mp (List.all_eq_true.mp hall c (List.contains_iff_mem.mp h))

theorem dumps_cons {v : Json Str} (h : v.wellFormed = true) :
    ∃ c t, v.dumps = c :: t ∧ kindOf c = v.kind := by
  cases v with
  | null => exact ⟨_, _, rfl, rfl⟩
  | bool b => cases b <;> exact ⟨_, _, rfl, rfl⟩
  | num t =>
    cases t with
    | nil => cases h
    | cons c t =>
      simp only [wellFormed, List.all_cons, Bool.and_eq_true] at h
      exact ⟨c, t, rfl, kindOf_numeral h.2.1⟩
  | str s => exact ⟨_, _, rfl, rfl⟩
  | arr vs => exact ⟨_, _, rfl, rfl⟩
  | obj kvs => exact ⟨_, _, rfl, rfl⟩

theorem kind_eq_of_dumps {v w : Json Str} (hv : v.wellFormed = true) (hw : w.wellFormed = true)
    {x y : Str} (h : v.dumps ++ x = w.dumps ++ y) : v.kind = w.kind := by
  obtain ⟨c, t, hc, hkc⟩ := dumps_cons hv
  obtain ⟨d, s, hd, hkd⟩ := dumps_cons hw
  rw [hc, hd] at h
  rw [← hkc, ← hkd, (List.cons.inj h).1]

/-- Nothing that a number could go on with. -/
def Stops (x : Str) : Prop := ∀ c, x.head? = some c → numeralChar c = false

theorem dumpsItems_stops (vs : List (Json Str)) (x : Str) : Stops (dumpsItems [','] vs ++ x) := by
  intro c hc
  cases vs with
  | nil =>
    obtain rfl : ']' = c := by simpa [dumpsItems] using hc
    rfl
  | cons v vs =>
    obtain rfl : ',' = c := by simpa [dumpsItems] using hc
    rfl

theorem dumpsMembers_stops (kvs : List (Str × Json Str)) (x : Str) :
    Stops (dumpsMembers [','] kvs ++ x) := by
  intro c hc
  cases kvs with
  | nil =>
    obtain rfl : '\x7d' = c := by simpa [dumpsMembers] using hc
    rfl
  | cons kv kvs =>
    obtain rfl : ',' = c := by simpa [dumpsMembers] using hc
    rfl

/-- No item starts with the bracket that closes the array. -/
theorem dumpsItems_cons_ne {v : Json Str} {vs : List (Json Str)} {separator x y : Str}
    (hsep : separator = [] ∨ separator = [',']) (h : wellFormedAll (v :: vs) = true) :
    dumpsItems separator (v :: vs) ++ x ≠ ']' :: y := by
  simp only [wellFormedAll, Bool.and_eq_true] at h
  obtain ⟨c, t, hc, hkind⟩ := dumps_cons h.1
  intro heq
  rcases hsep with rfl | rfl
  · rw [dumpsItems, hc] at heq
    obtain rfl : c = ']' := (List.cons.inj heq).1
    exact kind_ne v hkind.symm
  · exact absurd (List.cons.inj heq).1 (by decide)

theorem dumpsMembers_cons_ne {kv : Str × Json Str} {kvs : List (Str × Json Str)}
    {separator x y : Str} (hsep : separator = [] ∨ separator = [',']) :
    dumpsMembers separator (kv :: kvs) ++ x ≠ '\x7d' :: y := by
  intro heq
  rcases hsep with rfl | rfl
  · exact absurd (List.cons.inj heq).1 (by decide)
  · exact absurd (List.cons.inj heq).1 (by decide)

theorem numeral_takeWhile {t x : Str} (ht : t.all numeralChar = true) (hx : Stops x) :
    (t ++ x).takeWhile numeralChar = t := by
  rw [List.takeWhile_append_of_pos (List.all_eq_true.mp ht)]
  cases x with
  | nil => simp
  | cons c x => simp [hx c rfl]

theorem numeral_cancel {t s x y : Str} (ht : t.all numeralChar = true)
    (hs : s.all numeralChar = true) (hx : Stops x) (hy : Stops y) (h : t ++ x = s ++ y) :
    t = s ∧ x = y := by
  have htake := congrArg (List.takeWhile numeralChar) h
  rw [numeral_takeWhile ht hx, numeral_takeWhile hs hy] at htake
  subst htake
  exact ⟨rfl, List.append_cancel_left h⟩

mutual
/-- A value is read back off what starts with its text. -/
theorem dumps_cancel (v w : Json Str) {x y : Str} (hv : v.wellFormed = true)
    (hw : w.wellFormed = true) (hx : Stops x) (hy : Stops y) (h : v.dumps ++ x = w.dumps ++ y) :
    v = w ∧ x = y := by
  have hkind := kind_eq_of_dumps hv hw h
  match v, w with
  | .null, .null => exact ⟨rfl, List.append_cancel_left h⟩
  | .bool true, .bool true => exact ⟨rfl, List.append_cancel_left h⟩
  | .bool false, .bool false => exact ⟨rfl, List.append_cancel_left h⟩
  | .num t, .num s =>
    simp only [wellFormed, Bool.and_eq_true] at hv hw
    obtain ⟨rfl, hrest⟩ := numeral_cancel hv.2 hw.2 hx hy h
    exact ⟨rfl, hrest⟩
  | .str s, .str t =>
    obtain ⟨rfl, hrest⟩ := quote_cancel h
    exact ⟨rfl, hrest⟩
  | .arr vs, .arr ws =>
    obtain ⟨rfl, hrest⟩ := dumpsItems_cancel vs ws (.inl rfl) hv hw (List.cons.inj h).2
    exact ⟨rfl, hrest⟩
  | .obj kvs, .obj lws =>
    simp only [wellFormed, Bool.and_eq_true] at hv hw
    obtain ⟨rfl, hrest⟩ := dumpsMembers_cancel kvs lws (.inl rfl) hv.2 hw.2 (List.cons.inj h).2
    exact ⟨rfl, hrest⟩

theorem dumpsItems_cancel (vs ws : List (Json Str)) {separator x y : Str}
    (hsep : separator = [] ∨ separator = [',']) (hvs : wellFormedAll vs = true)
    (hws : wellFormedAll ws = true)
    (h : dumpsItems separator vs ++ x = dumpsItems separator ws ++ y) : vs = ws ∧ x = y := by
  match vs, ws with
  | [], [] => exact ⟨rfl, (List.cons.inj h).2⟩
  | [], w :: ws => exact absurd h.symm (dumpsItems_cons_ne hsep hws)
  | v :: vs, [] => exact absurd h (dumpsItems_cons_ne hsep hvs)
  | v :: vs, w :: ws =>
    simp only [wellFormedAll, Bool.and_eq_true] at hvs hws
    simp only [dumpsItems, List.append_assoc] at h
    obtain ⟨rfl, hrest⟩ := dumps_cancel v w hvs.1 hws.1 (dumpsItems_stops vs x)
      (dumpsItems_stops ws y) (List.append_cancel_left h)
    obtain ⟨rfl, hend⟩ := dumpsItems_cancel vs ws (.inr rfl) hvs.2 hws.2 hrest
    exact ⟨rfl, hend⟩

theorem dumpsMembers_cancel (kvs lws : List (Str × Json Str)) {separator x y : Str}
    (hsep : separator = [] ∨ separator = [',']) (hkvs : wellFormedMembers kvs = true)
    (hlws : wellFormedMembers lws = true)
    (h : dumpsMembers separator kvs ++ x = dumpsMembers separator lws ++ y) :
    kvs = lws ∧ x = y := by
  match kvs, lws with
  | [], [] => exact ⟨rfl, (List.cons.inj h).2⟩
  | [], kv :: lws => exact absurd h.symm (dumpsMembers_cons_ne hsep)
  | kv :: kvs, [] => exact absurd h (dumpsMembers_cons_ne hsep)
  | (k, v) :: kvs, (l, w) :: lws =>
    simp only [wellFormedMembers, Bool.and_eq_true] at hkvs hlws
    simp only [dumpsMembers, List.append_assoc, List.cons_append] at h
    obtain ⟨rfl, hvalue⟩ := quote_cancel (List.append_cancel_left h)
    obtain ⟨rfl, hrest⟩ := dumps_cancel v w hkvs.1 hlws.1 (dumpsMembers_stops kvs x)
      (dumpsMembers_stops lws y) (List.cons.inj hvalue).2
    obtain ⟨rfl, hend⟩ := dumpsMembers_cancel kvs lws (.inr rfl) hkvs.2 hlws.2 hrest
    exact ⟨rfl, hend⟩
end

/-! The same with `ensure_ascii=False`, which leaves what is not ASCII as it is. -/

def escapeUnicode (c : Char) : Str :=
  match ESCAPE_DCT.lookup c with
  | some e => ['\\', e]
  | none => if c.toNat < 0x20 then '\\' :: 'u' :: hex4 c.toNat else [c]

def quoteUnicode (s : Str) : Str := '"' :: (s.flatMap escapeUnicode ++ ['"'])

mutual
def dumpsUnicode : Json Str → Str
  | .null => "null".toList
  | .bool true => "true".toList
  | .bool false => "false".toList
  | .num t => t
  | .str s => quoteUnicode s
  | .arr vs => '[' :: dumpsUnicodeItems [] vs
  | .obj kvs => '\x7b' :: dumpsUnicodeMembers [] kvs

def dumpsUnicodeItems (separator : Str) : List (Json Str) → Str
  | [] => [']']
  | v :: vs => separator ++ (v.dumpsUnicode ++ dumpsUnicodeItems [','] vs)

def dumpsUnicodeMembers (separator : Str) : List (Str × Json Str) → Str
  | [] => ['\x7d']
  | (k, v) :: kvs =>
    separator ++ (quoteUnicode k ++ ':' :: (v.dumpsUnicode ++ dumpsUnicodeMembers [','] kvs))
end

end Json

end Eyot
