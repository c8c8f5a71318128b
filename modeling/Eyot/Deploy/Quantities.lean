import Eyot.Data.Text
import Eyot.Library.Binary64

/-! How the pod metrics read the quantities of Kubernetes. -/

namespace Eyot.Quantities

open Binary64 (Value)

inductive NumberError where
  | valueError
  | overflowError
  deriving DecidableEq

/-! The numbers that `int` and `float` read; of the digits of Unicode only the ASCII ones. -/

/-- The space around a number: the separators from U+001C to U+001F are none. -/
def isNumberSpace (c : Char) : Bool :=
  pythonText.isSpace c && !(0x1C ≤ c.toNat && c.toNat ≤ 0x1F)

/-- An underscore stands between two digits only. -/
def dropUnderscores (afterDigit : Bool) : Str → Option Str
  | [] => some []
  | '_' :: text =>
    if afterDigit && text.head?.any Char.isDigit then dropUnderscores false text else none
  | c :: text => (dropUnderscores c.isDigit text).map (c :: ·)

/-- The sign and what follows it. -/
def sign : Str → ℤ × Str
  | '-' :: text => (-1, text)
  | '+' :: text => (1, text)
  | text => (1, text)

def natOf (digits : Str) : ℤ := Nat.ofDigitChars 10 digits 0

/-- `sys.int_info.default_max_str_digits`. -/
def maxStrDigits : Nat := 4300

/-- `int(text)`. -/
def int (text : Str) : Except NumberError ℤ :=
  match dropUnderscores false (Scan.strip isNumberSpace text) with
  | none => .error .valueError
  | some text =>
    let (s, digits) := sign text
    if digits.isEmpty || !digits.all Char.isDigit || maxStrDigits < digits.length then
      .error .valueError
    else .ok (s * natOf digits)

/-- What stands after the digits and the point of a number. -/
def exponent? : Str → Option ℤ
  | [] => some 0
  | c :: text =>
    let (s, digits) := sign text
    if (c = 'e' || c = 'E') && !digits.isEmpty && digits.all Char.isDigit then
      some (s * natOf digits)
    else none

/-- A number without its sign. -/
def decimal? (text : Str) : Option ℚ :=
  let whole := text.takeWhile Char.isDigit
  let rest := text.dropWhile Char.isDigit
  let (fraction, rest) := match rest with
    | '.' :: rest => (rest.takeWhile Char.isDigit, rest.dropWhile Char.isDigit)
    | rest => ([], rest)
  if (whole ++ fraction).isEmpty then none
  else (exponent? rest).map fun e =>
    (natOf (whole ++ fraction) : ℚ) * 10 ^ (e - (fraction.length : ℤ))

/-- `float(text)`. -/
def float (text : Str) : Except NumberError Value :=
  match dropUnderscores false (Scan.strip isNumberSpace text) with
  | none => .error .valueError
  | some text =>
    let (s, rest) := sign text
    let word := rest.map Char.toLower
    if word = ['i', 'n', 'f'] || word = ['i', 'n', 'f', 'i', 'n', 'i', 't', 'y'] then .ok .inf
    else if word = ['n', 'a', 'n'] then .ok .nan
    else
      match decimal? rest with
      | some x => .ok (.ofRat (s * x))
      | none => .error .valueError

/-- `int(x)` of a float. -/
def truncate : Value → Except NumberError ℤ
  | .finite x => .ok (Binary64.trunc x)
  | .inf => .error .overflowError
  | .nan => .error .valueError

/-! `k8s_client_watch.py`. -/

/-- `except ValueError: return 0`. -/
def orZero : Except NumberError ℤ → Except NumberError ℤ
  | .error .valueError => .ok 0
  | result => result

/-- `value[:-n]`, where `value` ends in a suffix of that length. -/
def cut (value : Str) (n : Nat) : Str := value.rdrop n

def parseCpu (value : Str) : Except NumberError ℤ :=
  let value := pythonText.strip value
  if value.isEmpty then .ok 0
  else if ['n'].isSuffixOf value then orZero ((int (cut value 1)).map (· / 1000000))
  else if ['m'].isSuffixOf value then orZero (int (cut value 1))
  else orZero ((float value).bind fun x => truncate (x.times 1000))

/-- Bytes in a MiB. -/
def mib : ℤ := 1024 * 1024

/-- The decimal suffixes differ in the number of bytes that they stand for. -/
def parseDecimal (bytes : ℤ) (value : Str) : Except NumberError ℤ :=
  orZero ((float (cut value 1)).bind fun x => truncate ((x.times bytes).dividedBy mib))

def parseMemory (value : Str) : Except NumberError ℤ :=
  let value := pythonText.strip value
  if value.isEmpty || value = ['0'] then .ok 0
  else if ['K', 'i'].isSuffixOf value then orZero ((int (cut value 2)).map (· / 1024))
  else if ['M', 'i'].isSuffixOf value then orZero (int (cut value 2))
  else if ['G', 'i'].isSuffixOf value then
    orZero ((float (cut value 2)).bind fun x => truncate (x.times 1024))
  else if ['T', 'i'].isSuffixOf value then
    orZero ((float (cut value 2)).bind fun x => truncate ((x.times 1024).times 1024))
  else if ['m'].isSuffixOf value then orZero ((int (cut value 1)).map (· / 1000 / mib))
  else if ['G'].isSuffixOf value then parseDecimal 1000000000 value
  else if ['M'].isSuffixOf value then parseDecimal 1000000 value
  else if ['K'].isSuffixOf value || ['k'].isSuffixOf value then parseDecimal 1000 value
  else if ['T'].isSuffixOf value then parseDecimal 1000000000000 value
  else .ok ((((float value).bind truncate).map (· / mib)).toOption.getD 0)

/-! Quantities, and their texts. -/

inductive Suffix where
  | nano
  | micro
  | milli
  | one
  | kilo
  | mega
  | giga
  | tera
  | peta
  | exa
  | kibi
  | mebi
  | gibi
  | tebi
  | pebi
  | exbi
  | exponent (upper : Bool) (e : ℤ)
  deriving DecidableEq

def digitsOf (n : Nat) : Str := Nat.toDigits 10 n

def intText : ℤ → Str
  | .ofNat n => digitsOf n
  | .negSucc n => '-' :: digitsOf (n + 1)

def Suffix.text : Suffix → Str
  | nano => ['n']
  | micro => ['u']
  | milli => ['m']
  | one => []
  | kilo => ['k']
  | mega => ['M']
  | giga => ['G']
  | tera => ['T']
  | peta => ['P']
  | exa => ['E']
  | kibi => ['K', 'i']
  | mebi => ['M', 'i']
  | gibi => ['G', 'i']
  | tebi => ['T', 'i']
  | pebi => ['P', 'i']
  | exbi => ['E', 'i']
  | exponent upper e => (if upper then 'E' else 'e') :: intText e

def Suffix.scale : Suffix → ℚ
  | nano => 10 ^ (-9 : ℤ)
  | micro => 10 ^ (-6 : ℤ)
  | milli => 10 ^ (-3 : ℤ)
  | one => 1
  | kilo => 10 ^ 3
  | mega => 10 ^ 6
  | giga => 10 ^ 9
  | tera => 10 ^ 12
  | peta => 10 ^ 15
  | exa => 10 ^ 18
  | kibi => 2 ^ 10
  | mebi => 2 ^ 20
  | gibi => 2 ^ 30
  | tebi => 2 ^ 40
  | pebi => 2 ^ 50
  | exbi => 2 ^ 60
  | exponent _ e => 10 ^ e

/-- An integer and a suffix. The canonical form of a quantity is one of these, without a plus, a
point or a leading zero. -/
structure Quantity where
  mantissa : ℤ
  suffix : Suffix
  deriving DecidableEq

def Quantity.text (q : Quantity) : Str := intText q.mantissa ++ q.suffix.text

def Quantity.value (q : Quantity) : ℚ := q.mantissa * q.suffix.scale

/-! What is read out of the text of an integer. -/

theorem isDigit_of_mem_digitsOf {n : Nat} {c : Char} (h : c ∈ digitsOf n) : c.isDigit = true :=
  Nat.isDigit_of_mem_toDigits (by decide) (by decide) h

theorem digitsOf_ne_nil (n : Nat) : digitsOf n ≠ [] := Nat.toDigits_ne_nil

theorem natOf_digitsOf (n : Nat) : natOf (digitsOf n) = n :=
  congrArg Nat.cast Nat.ofDigitChars_ten_toDigits

theorem digit_ne {c d : Char} (hc : c.isDigit = true) (hd : d.isDigit = false) : c ≠ d := by
  rintro rfl
  rw [hc] at hd
  cases hd

theorem toLower_of_isDigit {c : Char} (h : c.isDigit = true) : c.toLower = c := by
  have hhigh : c.val.toNat ≤ 57 := (Char.isDigit_iff_toNat.mp h).2
  refine dif_neg ?_
  rw [ge_iff_le, UInt32.le_iff_toNat_le]
  change ¬(65 ≤ c.val.toNat ∧ _)
  omega

/-- The sign, and then the digits. -/
theorem sign_intText (z : ℤ) :
    ∃ s : ℤ, s * z.natAbs = z ∧
      ∀ rest, sign (intText z ++ rest) = (s, digitsOf z.natAbs ++ rest) := by
  cases z with
  | ofNat n =>
    refine ⟨1, one_mul _, fun rest => ?_⟩
    change sign (digitsOf n ++ rest) = (1, digitsOf n ++ rest)
    cases hdigits : digitsOf n with
    | nil => exact absurd hdigits (digitsOf_ne_nil n)
    | cons c cs =>
      have hc : c.isDigit = true := isDigit_of_mem_digitsOf (hdigits ▸ List.mem_cons_self)
      rw [List.cons_append]
      unfold sign
      split
      · rename_i h
        exact absurd (List.cons.inj h).1 (digit_ne hc rfl)
      · rename_i h
        exact absurd (List.cons.inj h).1 (digit_ne hc rfl)
      · rfl
  | negSucc n => exact ⟨-1, by rw [Int.natAbs_negSucc]; omega, fun rest => rfl⟩

/-- No underscore, and no space at either end or within. -/
def Plain (text : Str) : Prop := ∀ c ∈ text, c ≠ '_' ∧ pythonText.isSpace c = false

theorem Plain.append {a b : Str} (ha : Plain a) (hb : Plain b) : Plain (a ++ b) :=
  List.forall_mem_append.mpr ⟨ha, hb⟩

theorem plain_digitsOf (n : Nat) : Plain (digitsOf n) := by
  intro c hc
  have hdigit := isDigit_of_mem_digitsOf hc
  obtain ⟨hlow, hhigh⟩ := Char.isDigit_iff_toNat.mp hdigit
  refine ⟨digit_ne hdigit rfl, pythonText.isSpace_visible ?_ ?_⟩
  · change 33 ≤ c.toNat
    exact le_trans (by decide) hlow
  · change c.toNat ≤ 126
    exact le_trans hhigh (by decide)

theorem plain_intText (z : ℤ) : Plain (intText z) := by
  cases z with
  | ofNat n => exact plain_digitsOf n
  | negSucc n =>
    have hminus : Plain ['-'] := List.forall_mem_singleton.mpr ⟨by decide, by decide⟩
    exact hminus.append (plain_digitsOf (n + 1))

theorem Plain.dropUnderscores {text : Str} (h : Plain text) (b : Bool) :
    dropUnderscores b text = some text := by
  induction text generalizing b with
  | nil => rfl
  | cons c text ih =>
    have hc := (h c List.mem_cons_self).1
    have hrest := ih (fun d hd => h d (List.mem_cons_of_mem _ hd)) c.isDigit
    unfold Quantities.dropUnderscores
    split
    · rename_i heq
      cases heq
    · rename_i heq
      exact absurd (List.cons.inj heq).1 hc
    · rename_i heq
      obtain ⟨rfl, rfl⟩ := List.cons.inj heq
      rw [hrest]
      rfl

theorem Plain.strip {text : Str} (h : Plain text) : pythonText.strip text = text :=
  Scan.strip_eq_self (fun _ hc => (h _ (List.mem_of_mem_head? hc)).2)
    fun _ hc => (h _ (List.mem_of_mem_getLast? hc)).2

theorem Plain.strip_numberSpace {text : Str} (h : Plain text) :
    Scan.strip isNumberSpace text = text := by
  have hspace {c : Char} (hc : c ∈ text) : isNumberSpace c = false := by
    unfold isNumberSpace
    rw [(h c hc).2]
    rfl
  exact Scan.strip_eq_self (fun _ hc => hspace (List.mem_of_mem_head? hc))
    fun _ hc => hspace (List.mem_of_mem_getLast? hc)

/-- `int` reads what is not too long for it. -/
theorem int_intText (z : ℤ) :
    int (intText z) =
      if z.natAbs < 10 ^ maxStrDigits then .ok z else .error .valueError := by
  obtain ⟨s, hs, hsign⟩ := sign_intText z
  have hsign := hsign []
  rw [List.append_nil, List.append_nil] at hsign
  unfold int
  rw [(plain_intText z).strip_numberSpace, (plain_intText z).dropUnderscores]
  dsimp only
  rw [hsign]
  dsimp only
  have hempty : (digitsOf z.natAbs).isEmpty = false :=
    List.isEmpty_eq_false_iff.mpr (digitsOf_ne_nil _)
  have hdigits : (digitsOf z.natAbs).all Char.isDigit = true :=
    List.all_eq_true.mpr fun _ => isDigit_of_mem_digitsOf
  have hlength : maxStrDigits < (digitsOf z.natAbs).length ↔ ¬ z.natAbs < 10 ^ maxStrDigits := by
    rw [← not_le]
    exact not_congr (Nat.length_toDigits_le_iff (by decide) (by decide))
  rw [hempty, hdigits, natOf_digitsOf, hs]
  simp only [Bool.not_true, Bool.or_self, Bool.false_or, decide_eq_true_eq, hlength]
  rw [ite_not]

/-- The digits of a number end where its text goes on with something else. -/
def EndsDigits (rest : Str) : Prop := ∀ c, rest.head? = some c → c.isDigit = false ∧ c ≠ '.'

theorem EndsDigits.takeWhile {rest : Str} (h : EndsDigits rest) :
    rest.takeWhile Char.isDigit = [] := by
  cases rest with
  | nil => rfl
  | cons c rest => exact List.takeWhile_cons_of_neg (by rw [(h c rfl).1]; exact Bool.false_ne_true)

theorem EndsDigits.dropWhile {rest : Str} (h : EndsDigits rest) :
    rest.dropWhile Char.isDigit = rest := by
  cases rest with
  | nil => rfl
  | cons c rest => exact List.dropWhile_cons_of_neg (by rw [(h c rfl).1]; exact Bool.false_ne_true)

theorem decimal?_digitsOf (n : Nat) {rest : Str} (h : EndsDigits rest) :
    decimal? (digitsOf n ++ rest) = (exponent? rest).map fun e => (n : ℚ) * 10 ^ e := by
  have hdigits : ∀ c ∈ digitsOf n, c.isDigit = true := fun c hc => isDigit_of_mem_digitsOf hc
  have htake : (digitsOf n ++ rest).takeWhile Char.isDigit = digitsOf n := by
    rw [List.takeWhile_append_of_pos hdigits, EndsDigits.takeWhile h, List.append_nil]
  have hdrop : (digitsOf n ++ rest).dropWhile Char.isDigit = rest := by
    rw [List.dropWhile_append_of_pos hdigits, EndsDigits.dropWhile h]
  unfold decimal?
  rw [htake, hdrop]
  dsimp only
  split
  · exact absurd rfl (h '.' rfl).2
  · have hempty : (digitsOf n ++ []).isEmpty = false := by
      rw [List.append_nil]
      exact List.isEmpty_eq_false_iff.mpr (digitsOf_ne_nil n)
    rw [hempty, List.append_nil, natOf_digitsOf]
    simp

theorem float_intText (z : ℤ) {rest : Str} (hplain : Plain rest) (h : EndsDigits rest) :
    float (intText z ++ rest) =
      match exponent? rest with
      | some e => .ok (.ofRat (z * 10 ^ e))
      | none => .error .valueError := by
  obtain ⟨s, hs, hsign⟩ := sign_intText z
  have htext := (plain_intText z).append hplain
  unfold float
  rw [htext.strip_numberSpace, htext.dropUnderscores]
  dsimp only
  rw [hsign]
  dsimp only
  have hword {c : Char} {word : Str} (hc : c.isDigit = false) :
      (digitsOf z.natAbs ++ rest).map Char.toLower ≠ c :: word := by
    cases hdigits : digitsOf z.natAbs with
    | nil => exact absurd hdigits (digitsOf_ne_nil _)
    | cons d ds =>
      have hd : d.isDigit = true := isDigit_of_mem_digitsOf (hdigits ▸ List.mem_cons_self)
      intro heq
      have hhead : d.toLower = c := (List.cons.inj heq).1
      exact digit_ne hd hc (toLower_of_isDigit hd ▸ hhead)
  have hinf : (decide ((digitsOf z.natAbs ++ rest).map Char.toLower = ['i', 'n', 'f']) ||
      decide ((digitsOf z.natAbs ++ rest).map Char.toLower =
        ['i', 'n', 'f', 'i', 'n', 'i', 't', 'y'])) = false := by
    rw [decide_eq_false (hword rfl), decide_eq_false (hword rfl)]
    rfl
  rw [hinf, if_neg Bool.false_ne_true, if_neg (hword rfl), decimal?_digitsOf _ h]
  cases exponent? rest with
  | none => rfl
  | some e =>
    change Except.ok (Value.ofRat (s * (z.natAbs * 10 ^ e))) = Except.ok (Value.ofRat (z * 10 ^ e))
    have hz : (s : ℚ) * (z.natAbs : ℤ) = z := by rw [← Int.cast_mul, hs]
    rw [← mul_assoc, ← Int.cast_natCast z.natAbs, hz]

theorem float_intText_nil (z : ℤ) : float (intText z) = .ok (.ofRat z) := by
  have hplain : Plain [] := fun _ hc => by cases hc
  have hends : EndsDigits [] := fun _ hc => by cases hc
  have h := float_intText z hplain hends
  rw [List.append_nil] at h
  refine h.trans ?_
  change Except.ok (Value.ofRat (z * 10 ^ (0 : ℤ))) = _
  rw [zpow_zero, mul_one]

/-! Suffixes. -/

theorem plain_of_all {text : Str}
    (h : text.all (fun c => c != '_' && !pythonText.isSpace c) = true) : Plain text := by
  intro c hc
  have := List.all_eq_true.mp h c hc
  rw [Bool.and_eq_true, bne_iff_ne, Bool.not_eq_true'] at this
  exact this

theorem Suffix.plain_text (s : Suffix) : Plain s.text := by
  cases s with
  | exponent upper e =>
    have hletter : Plain [if upper then 'E' else 'e'] := by
      cases upper
      · exact plain_of_all rfl
      · exact plain_of_all rfl
    exact hletter.append (plain_intText e)
  | _ => exact plain_of_all rfl

theorem endsDigits_cons {c : Char} {rest : Str} (h : (c.isDigit || c == '.') = false) :
    EndsDigits (c :: rest) := by
  intro d hd
  obtain rfl := Option.some.inj hd
  rw [Bool.or_eq_false_iff, beq_eq_false_iff_ne] at h
  exact h

theorem Suffix.endsDigits_text (s : Suffix) : EndsDigits s.text := by
  cases s with
  | one => exact fun _ hc => by cases hc
  | exponent upper e =>
    cases upper
    · exact endsDigits_cons rfl
    · exact endsDigits_cons rfl
  | _ => exact endsDigits_cons rfl

theorem exponent?_intText {c : Char} (hc : (c = 'e' || c = 'E') = true) (e : ℤ) :
    exponent? (c :: intText e) = some e := by
  obtain ⟨s, hs, hsign⟩ := sign_intText e
  have hsign := hsign []
  rw [List.append_nil, List.append_nil] at hsign
  have hempty : (digitsOf e.natAbs).isEmpty = false :=
    List.isEmpty_eq_false_iff.mpr (digitsOf_ne_nil _)
  have hdigits : (digitsOf e.natAbs).all Char.isDigit = true :=
    List.all_eq_true.mpr fun _ => isDigit_of_mem_digitsOf
  unfold exponent?
  dsimp only
  rw [hsign]
  dsimp only
  rw [hc, hempty, hdigits, natOf_digitsOf, hs]
  rfl

/-- `float` knows the exponents among the suffixes. -/
theorem float_text (q : Quantity) : float q.text =
    match q.suffix with
    | .one => .ok (.ofRat q.mantissa)
    | .exponent _ e => .ok (.ofRat (q.mantissa * 10 ^ e))
    | _ => .error .valueError := by
  obtain ⟨z, s⟩ := q
  change float (intText z ++ s.text) = _
  rw [float_intText z s.plain_text s.endsDigits_text]
  cases s with
  | one =>
    change Except.ok (Value.ofRat (z * 10 ^ (0 : ℤ))) = _
    rw [zpow_zero, mul_one]
  | exponent upper e =>
    have hletter : (decide ((if upper then 'E' else 'e') = 'e') ||
        decide ((if upper then 'E' else 'e') = 'E')) = true := by
      cases upper
      · rfl
      · rfl
    have hexp : exponent? (Suffix.exponent upper e).text = some e := exponent?_intText hletter e
    rw [hexp]
  | _ => rfl

theorem isSuffixOf_append {s t : Str} (h : s.length ≤ t.length) (a : Str) :
    s.isSuffixOf (a ++ t) = s.isSuffixOf t := by
  rw [Bool.eq_iff_iff, List.isSuffixOf_iff_suffix, List.isSuffixOf_iff_suffix]
  constructor
  · exact fun hs => List.suffix_of_suffix_length_le hs (List.suffix_append a t) h
  · exact fun hs => hs.trans (List.suffix_append a t)

theorem not_isSuffixOf {c d : Char} (h : c ≠ d) (s a : Str) :
    (s ++ [c]).isSuffixOf (a ++ [d]) = false := by
  rw [Bool.eq_false_iff, ne_eq, List.isSuffixOf_iff_suffix]
  rintro ⟨t, ht⟩
  rw [← List.append_assoc] at ht
  exact h (List.cons.inj (List.append_inj' ht rfl).2).1

/-- The text before a suffix. -/
theorem cut_append (a t : Str) : cut (a ++ t) t.length = a := by
  rw [cut, List.rdrop_eq_reverse_drop_reverse, List.reverse_append,
    List.drop_left' (List.length_reverse), List.reverse_reverse]

theorem digitsOf_eq_concat (n : Nat) : ∃ a d, digitsOf n = a ++ [d] ∧ d.isDigit = true := by
  obtain ⟨a, d, h⟩ := (List.eq_nil_or_concat' (digitsOf n)).resolve_left (digitsOf_ne_nil n)
  refine ⟨a, d, h, isDigit_of_mem_digitsOf (n := n) ?_⟩
  rw [h]
  exact List.mem_concat_self

theorem intText_eq_concat (z : ℤ) : ∃ a d, intText z = a ++ [d] ∧ d.isDigit = true := by
  cases z with
  | ofNat n => exact digitsOf_eq_concat n
  | negSucc n =>
    obtain ⟨a, d, h, hd⟩ := digitsOf_eq_concat (n + 1)
    exact ⟨'-' :: a, d, congrArg ('-' :: ·) h, hd⟩

theorem Quantity.plain_text (q : Quantity) : Plain q.text :=
  (plain_intText q.mantissa).append q.suffix.plain_text

theorem Quantity.text_ne_nil (q : Quantity) : q.text.isEmpty = false := by
  obtain ⟨a, d, h, -⟩ := intText_eq_concat q.mantissa
  rw [Quantity.text, h, List.isEmpty_eq_false_iff]
  exact List.append_ne_nil_of_left_ne_nil (List.concat_ne_nil d a) _

/-- The endings that the two functions look for. -/
def endings : List Str :=
  [['n'], ['m'], ['K', 'i'], ['M', 'i'], ['G', 'i'], ['T', 'i'], ['G'], ['M'], ['K'], ['k'], ['T']]

/-- A text that ends in a digit, and in something else after it. -/
theorem isSuffixOf_digit_append {s t a : Str} {d : Char} (hd : d.isDigit = true)
    (hs : s.all (fun c => !c.isDigit) = true) (hlt : t.length < s.length) :
    s.isSuffixOf (a ++ [d] ++ t) = false := by
  rw [Bool.eq_false_iff, ne_eq, List.isSuffixOf_iff_suffix]
  intro h
  have hsuffix : d :: t <:+ s := by
    refine List.suffix_of_suffix_length_le ?_ h hlt
    rw [List.append_assoc]
    exact List.suffix_append a _
  have := List.all_eq_true.mp hs d (hsuffix.subset List.mem_cons_self)
  rw [hd] at this
  cases this

theorem isSuffixOf_letters {s t : Str}
    (h : endings.all (fun s => decide (t.length < s.length) || s.isSuffixOf t == decide (t = s)) =
      true)
    (hs : s ∈ endings) (hletters : s.all (fun c => !c.isDigit) = true) (z : ℤ) :
    s.isSuffixOf (intText z ++ t) = decide (t = s) := by
  obtain ⟨a, d, hz, hd⟩ := intText_eq_concat z
  by_cases hlt : t.length < s.length
  · rw [hz, isSuffixOf_digit_append hd hletters hlt, eq_comm, decide_eq_false_iff_not]
    rintro rfl
    exact lt_irrefl _ hlt
  · rw [isSuffixOf_append (not_lt.mp hlt)]
    have := List.all_eq_true.mp h s hs
    rw [decide_eq_false hlt, Bool.false_or, beq_iff_eq] at this
    exact this

/-- Each ending is the suffix. -/
theorem isSuffixOf_text {s : Str} (hs : s ∈ endings) (q : Quantity) :
    s.isSuffixOf q.text = decide (q.suffix.text = s) := by
  have hletters : s.all (fun c => !c.isDigit) = true :=
    List.all_eq_true.mp (by decide : endings.all (fun s => s.all fun c => !c.isDigit) = true) s hs
  have hpos : ([] : Str).length < s.length := by
    have := List.all_eq_true.mp (by decide : endings.all (fun s => 0 < s.length) = true) s hs
    exact of_decide_eq_true this
  obtain ⟨z, suffix⟩ := q
  change s.isSuffixOf (intText z ++ suffix.text) = _
  cases suffix with
  | one =>
    obtain ⟨a, d, hz, hd⟩ := intText_eq_concat z
    rw [hz, Suffix.text, isSuffixOf_digit_append hd hletters hpos, eq_comm,
      decide_eq_false_iff_not]
    rintro rfl
    exact lt_irrefl _ hpos
  | exponent upper e =>
    obtain ⟨a, d, he, hd⟩ := intText_eq_concat e
    have htext : (Suffix.exponent upper e).text = (if upper then 'E' else 'e') :: a ++ [d] :=
      congrArg (_ :: ·) he
    have hne : (Suffix.exponent upper e).text ≠ s := by
      rintro rfl
      have := List.all_eq_true.mp hletters d (by rw [htext]; exact List.mem_concat_self)
      rw [hd] at this
      cases this
    have hfalse := isSuffixOf_digit_append (a := intText z ++ (if upper then 'E' else 'e') :: a) hd
      hletters hpos
    rw [List.append_nil] at hfalse
    rw [decide_eq_false hne, htext, ← hfalse, List.append_assoc]
  | _ => exact isSuffixOf_letters (by decide) hs hletters z

theorem cut_text (z : ℤ) (s : Suffix) : cut (Quantity.text ⟨z, s⟩) s.text.length = intText z :=
  cut_append _ _

/-- The suffixes that `parseCpu` knows. -/
theorem parseCpu_text (q : Quantity) : parseCpu q.text =
    match q.suffix with
    | .nano => orZero ((int (intText q.mantissa)).map (· / 1000000))
    | .milli => orZero (int (intText q.mantissa))
    | .one => orZero (truncate ((Value.ofRat q.mantissa).times 1000))
    | .exponent _ e => orZero (truncate ((Value.ofRat (q.mantissa * 10 ^ e)).times 1000))
    | _ => .ok 0 := by
  have hfloat := float_text q
  unfold parseCpu
  rw [q.plain_text.strip]
  dsimp only
  rw [q.text_ne_nil, if_neg Bool.false_ne_true, isSuffixOf_text (by decide),
    isSuffixOf_text (by decide), hfloat]
  obtain ⟨z, s⟩ := q
  have hcut := cut_text z s
  cases s with
  | nano => exact congrArg (fun t => orZero ((int t).map (· / 1000000))) hcut
  | milli => exact congrArg (fun t => orZero (int t)) hcut
  | exponent upper e =>
    cases upper
    · rfl
    · rfl
  | _ => rfl

theorem eq_of_text_eq_zero {q : Quantity} (h : q.text = ['0']) : q = ⟨0, .one⟩ := by
  obtain ⟨z, s⟩ := q
  obtain ⟨a, d, hz, -⟩ := intText_eq_concat z
  have hlength := congrArg List.length h
  rw [Quantity.text, hz, List.length_append, List.length_append] at hlength
  have hnil : s.text = [] := List.eq_nil_of_length_eq_zero (by simp at hlength; omega)
  have hs : s = .one := by
    cases s with
    | one => rfl
    | _ => cases hnil
  have hzero : intText z = ['0'] := by
    rw [Quantity.text, hnil, List.append_nil] at h
    exact h
  cases z with
  | ofNat n =>
    have hn := natOf_digitsOf n
    rw [show digitsOf n = ['0'] from hzero] at hn
    have : (n : ℤ) = 0 := hn.symm
    rw [hs, Int.ofNat_eq_natCast, this]
  | negSucc n => exact absurd (List.cons.inj hzero).1 (by decide)

/-- The suffixes that `parseMemory` knows. -/
theorem parseMemory_text (q : Quantity) : parseMemory q.text =
    match q.suffix with
    | .kibi => orZero ((int (intText q.mantissa)).map (· / 1024))
    | .mebi => orZero (int (intText q.mantissa))
    | .gibi => orZero (truncate ((Value.ofRat q.mantissa).times 1024))
    | .tebi => orZero (truncate (((Value.ofRat q.mantissa).times 1024).times 1024))
    | .milli => orZero ((int (intText q.mantissa)).map (· / 1000 / mib))
    | .kilo => orZero (truncate (((Value.ofRat q.mantissa).times (1000 : ℤ)).dividedBy mib))
    | .mega => orZero (truncate (((Value.ofRat q.mantissa).times (1000000 : ℤ)).dividedBy mib))
    | .giga => orZero (truncate (((Value.ofRat q.mantissa).times (1000000000 : ℤ)).dividedBy mib))
    | .tera =>
      orZero (truncate (((Value.ofRat q.mantissa).times (1000000000000 : ℤ)).dividedBy mib))
    | .one => .ok (((truncate (Value.ofRat q.mantissa)).map (· / mib)).toOption.getD 0)
    | .exponent _ e =>
      .ok (((truncate (Value.ofRat (q.mantissa * 10 ^ e))).map (· / mib)).toOption.getD 0)
    | _ => .ok 0 := by
  have hfloat := float_text q
  unfold parseMemory
  rw [q.plain_text.strip]
  dsimp only
  rw [q.text_ne_nil, Bool.false_or]
  by_cases hzero : q.text = ['0']
  · obtain rfl := eq_of_text_eq_zero hzero
    rw [decide_eq_true hzero, if_pos rfl]
    dsimp only
    rw [Int.cast_zero, Value.ofRat_of_isDouble Binary64.isDouble_zero]
    rfl
  rw [decide_eq_false hzero, if_neg Bool.false_ne_true]
  iterate 10 rw [isSuffixOf_text (by decide)]
  rw [hfloat]
  obtain ⟨z, s⟩ := q
  have hcut := cut_text z s
  have hread : float (cut (Quantity.text ⟨z, s⟩) s.text.length) = .ok (.ofRat z) := by
    rw [hcut, float_intText_nil]
  let decimal (bytes : ℤ) (r : Except NumberError Value) :=
    orZero (r.bind fun x => truncate ((x.times bytes).dividedBy mib))
  cases s with
  | kibi => exact congrArg (fun t => orZero ((int t).map (· / 1024))) hcut
  | mebi => exact congrArg (fun t => orZero (int t)) hcut
  | milli => exact congrArg (fun t => orZero ((int t).map (· / 1000 / mib))) hcut
  | gibi => exact congrArg (fun r => orZero (r.bind fun x => truncate (x.times 1024))) hread
  | tebi =>
    exact congrArg (fun r => orZero (r.bind fun x => truncate ((x.times 1024).times 1024))) hread
  | kilo => exact congrArg (decimal 1000) hread
  | mega => exact congrArg (decimal 1000000) hread
  | giga => exact congrArg (decimal 1000000000) hread
  | tera => exact congrArg (decimal 1000000000000) hread
  | exponent upper e =>
    cases upper
    · rfl
    · rfl
  | _ => rfl

/-! Which quantities are read as they are. -/

/-- The computed value lies less than a unit from the whole number below the exact one, on the side
away from zero. -/
def Lands (exact : ℚ) (v : Value) : Prop :=
  ∃ y, v = .finite y ∧ |y - ⌊exact⌋| < 1 ∧ 0 ≤ (y - ⌊exact⌋) * ⌊exact⌋

/-- Rounding to the format leaves a number of bytes in its MiB. -/
def StaysInMib (bytes : ℚ) : Prop :=
  ∃ y, Binary64.nearest bytes = some y ∧
    ⌊bytes / mib⌋ * mib ≤ Binary64.trunc y ∧ Binary64.trunc y < (⌊bytes / mib⌋ + 1) * mib

def Quantity.ReadAsCpu (q : Quantity) : Prop :=
  match q.suffix with
  | .nano | .milli => q.mantissa.natAbs < 10 ^ maxStrDigits
  | .one => Binary64.IsDouble (q.value * 1000)
  | .exponent _ e =>
    if 0 ≤ e then Binary64.IsDouble (q.value * 1000)
    else Lands (q.value * 1000) ((Value.ofRat q.value).times 1000)
  | _ => 0 ≤ q.value * 1000 ∧ q.value * 1000 < 1

def Quantity.ReadAsMemory (q : Quantity) : Prop :=
  match q.suffix with
  | .kibi | .mebi | .milli => q.mantissa.natAbs < 10 ^ maxStrDigits
  | .gibi | .tebi => Binary64.IsDouble (q.value / mib)
  | .kilo | .mega | .giga | .tera =>
    Lands (q.value / mib) (((Value.ofRat q.mantissa).times q.suffix.scale).dividedBy mib)
  | .one | .exponent _ _ => StaysInMib q.value
  | _ => 0 ≤ q.value / mib ∧ q.value / mib < 1

theorem orZero_truncate_iff {v : Value} (h : v ≠ .nan) {n : ℤ} :
    orZero (truncate v) = .ok n ↔ v.TruncatesTo n := by
  cases v with
  | finite x =>
    constructor
    · exact fun hn => ⟨x, rfl, Except.ok.inj hn⟩
    · rintro ⟨y, hy, rfl⟩
      obtain rfl := Value.finite.inj hy
      rfl
  | inf =>
    constructor
    · exact fun hn => by cases hn
    · rintro ⟨y, hy, -⟩
      cases hy
  | nan => exact absurd rfl h

theorem orZero_lands_iff {v : Value} (h : v ≠ .nan) (exact : ℚ) :
    orZero (truncate v) = .ok ⌊exact⌋ ↔ Lands exact v := by
  rw [orZero_truncate_iff h]
  exact exists_congr fun y => and_congr_right fun _ => Binary64.trunc_eq_iff

/-- A count of whole units, `d` of the mantissa to each. -/
theorem orZero_int_iff {z d : ℤ} (hd : 0 < d) (hle : d ≤ 10 ^ 12) :
    orZero ((int (intText z)).map (· / d)) = .ok (z / d) ↔ z.natAbs < 10 ^ maxStrDigits := by
  rw [int_intText]
  split
  · rename_i h
    exact ⟨fun _ => h, fun _ => rfl⟩
  · rename_i h
    refine ⟨fun hzero => ?_, fun hlt => absurd hlt h⟩
    have hdiv : 0 = z / d := Except.ok.inj hzero
    have hmod : z % d = z := by
      have := Int.mul_ediv_add_emod z d
      rw [← hdiv, mul_zero, zero_add] at this
      exact this
    have hnonneg : 0 ≤ z := hmod ▸ Int.emod_nonneg z hd.ne'
    have hlt : z < 10 ^ 12 := (hmod ▸ Int.emod_lt_of_pos z hd).trans_le hle
    have hpow : 10 ^ 12 ≤ 10 ^ maxStrDigits := Nat.pow_le_pow_right (by decide) (by decide)
    omega

theorem ok_zero_iff (exact : ℚ) :
    (Except.ok 0 : Except NumberError ℤ) = .ok ⌊exact⌋ ↔ 0 ≤ exact ∧ exact < 1 := by
  rw [Except.ok.injEq, eq_comm, Int.floor_eq_zero_iff, Set.mem_Ico]

theorem orZero_int_one_iff {z : ℤ} :
    orZero (int (intText z)) = .ok z ↔ z.natAbs < 10 ^ maxStrDigits := by
  have h := orZero_int_iff (z := z) one_pos (by norm_num)
  rw [Int.ediv_one] at h
  rw [← h, int_intText]
  split
  · rw [Except.map, Int.ediv_one]
  · rfl

theorem orZero_product_iff {v : Value} {n c : ℤ} (h : v.Computes n) (hv : v ≠ .nan) (hc : c ≠ 0) :
    orZero (truncate (v.times c)) = .ok (n * c) ↔ Binary64.IsDouble ((n * c : ℤ)) :=
  (orZero_truncate_iff (Value.times_ne_nan hv c)).trans (h.times hc).truncatesTo_iff

/-- The floor of a value whose units are `d` of the mantissa each. -/
theorem floor_eq_ediv {z d : ℤ} (hd : 0 ≤ d) {x : ℚ} (h : x = z / d) : ⌊x⌋ = z / d := by
  lift d to ℕ using hd
  rw [h, Int.cast_natCast, Rat.floor_intCast_div_natCast]

theorem parseCpu_iff (q : Quantity) :
    parseCpu q.text = .ok ⌊q.value * 1000⌋ ↔ q.ReadAsCpu := by
  rw [parseCpu_text]
  obtain ⟨z, s⟩ := q
  cases s with
  | nano =>
    have hfloor : ⌊Quantity.value ⟨z, .nano⟩ * 1000⌋ = z / 1000000 := by
      refine floor_eq_ediv (by norm_num) ?_
      simp only [Quantity.value, Suffix.scale]
      norm_num
      ring
    rw [hfloor]
    exact orZero_int_iff (by norm_num) (by norm_num)
  | milli =>
    have hvalue : Quantity.value ⟨z, .milli⟩ * 1000 = z := by
      simp only [Quantity.value, Suffix.scale]
      norm_num
      ring
    rw [hvalue, Int.floor_intCast]
    exact orZero_int_one_iff
  | one =>
    have hvalue : Quantity.value ⟨z, .one⟩ * 1000 = ((z * 1000 : ℤ) : ℚ) := by
      rw [Quantity.value, Suffix.scale, mul_one]
      push_cast
      rfl
    have hread := orZero_product_iff (Value.computes_ofRat z) (Value.ofRat_ne_nan z)
      (by norm_num : (1000 : ℤ) ≠ 0)
    change _ ↔ Binary64.IsDouble (Quantity.value ⟨z, .one⟩ * 1000)
    rw [hvalue, Int.floor_intCast]
    exact hread
  | exponent upper e =>
    have hcond : Quantity.ReadAsCpu ⟨z, .exponent upper e⟩ =
        if 0 ≤ e then Binary64.IsDouble (Quantity.value ⟨z, .exponent upper e⟩ * 1000)
        else Lands (Quantity.value ⟨z, .exponent upper e⟩ * 1000)
          ((Value.ofRat (Quantity.value ⟨z, .exponent upper e⟩)).times 1000) := rfl
    rw [hcond]
    by_cases he : 0 ≤ e
    · obtain ⟨k, rfl⟩ := Int.eq_ofNat_of_zero_le he
      have hscale : (z : ℚ) * 10 ^ (k : ℤ) = ((z * 10 ^ k : ℤ) : ℚ) := by
        rw [zpow_natCast]
        push_cast
        rfl
      have hvalue : Quantity.value ⟨z, .exponent upper k⟩ * 1000 =
          ((z * 10 ^ k * 1000 : ℤ) : ℚ) := by
        rw [Quantity.value, Suffix.scale, hscale]
        push_cast
        rfl
      have hread := orZero_product_iff (Value.computes_ofRat (z * 10 ^ k)) (Value.ofRat_ne_nan _)
        (by norm_num : (1000 : ℤ) ≠ 0)
      rw [if_pos he, hvalue, Int.floor_intCast]
      dsimp only
      rw [hscale]
      exact hread
    · rw [if_neg he]
      exact orZero_lands_iff (Value.times_ne_nan (Value.ofRat_ne_nan _) 1000) _
  | _ => exact ok_zero_iff _

theorem bytes_iff (x : ℚ) :
    (Except.ok (((truncate (Value.ofRat x)).map (· / mib)).toOption.getD 0) :
      Except NumberError ℤ) = .ok ⌊x / mib⌋ ↔ StaysInMib x := by
  have hmib : 0 < mib := by decide
  unfold StaysInMib Value.ofRat
  rw [Except.ok.injEq]
  cases hnearest : Binary64.nearest x with
  | none =>
    refine ⟨fun hzero => ?_, fun ⟨y, hy, _⟩ => by cases hy⟩
    have hpos : (0 : ℚ) < mib := Int.cast_pos.mpr hmib
    obtain ⟨hlow, hhigh⟩ := Set.mem_Ico.mp (Int.floor_eq_zero_iff.mp hzero.symm)
    rw [le_div_iff₀ hpos, zero_mul] at hlow
    rw [div_lt_one hpos] at hhigh
    have habs : |x| ≤ 2 ^ 20 := by
      rw [abs_of_nonneg hlow]
      refine hhigh.le.trans ?_
      norm_num [mib]
    obtain ⟨y, hy, -⟩ := Binary64.exists_nearest_of_abs_le habs (by norm_num)
    rw [hnearest] at hy
    cases hy
  | some y =>
    change Binary64.trunc y / mib = _ ↔ _
    rw [Int.ediv_eq_iff_of_pos hmib]
    constructor
    · exact fun h => ⟨y, rfl, h.1, by rw [add_mul, one_mul]; exact h.2⟩
    · rintro ⟨y', hy', hlow, hhigh⟩
      obtain rfl := Option.some.inj hy'
      exact ⟨hlow, by rw [add_mul, one_mul] at hhigh; exact hhigh⟩

theorem decimal_iff (z : ℤ) {bytes : ℤ} {scale : ℚ} (h : scale = bytes) (exact : ℚ) :
    orZero (truncate (((Value.ofRat z).times bytes).dividedBy mib)) = .ok ⌊exact⌋ ↔
      Lands exact (((Value.ofRat z).times scale).dividedBy mib) := by
  rw [h]
  exact orZero_lands_iff (Value.dividedBy_ne_nan (Value.times_ne_nan (Value.ofRat_ne_nan _) _) _) _

theorem parseMemory_iff (q : Quantity) :
    parseMemory q.text = .ok ⌊q.value / mib⌋ ↔ q.ReadAsMemory := by
  rw [parseMemory_text]
  obtain ⟨z, s⟩ := q
  cases s with
  | kibi =>
    have hfloor : ⌊Quantity.value ⟨z, .kibi⟩ / mib⌋ = z / 1024 := by
      refine floor_eq_ediv (by norm_num) ?_
      simp only [Quantity.value, Suffix.scale, mib]
      norm_num
      ring
    rw [hfloor]
    exact orZero_int_iff (by norm_num) (by norm_num)
  | mebi =>
    have hvalue : Quantity.value ⟨z, .mebi⟩ / mib = z := by
      simp only [Quantity.value, Suffix.scale, mib]
      norm_num
    rw [hvalue, Int.floor_intCast]
    exact orZero_int_one_iff
  | milli =>
    have hfloor : ⌊Quantity.value ⟨z, .milli⟩ / mib⌋ = z / (1000 * mib) := by
      refine floor_eq_ediv (by decide) ?_
      simp only [Quantity.value, Suffix.scale, mib]
      norm_num
      ring
    have hread := orZero_int_iff (z := z) (d := 1000 * mib) (by decide) (by decide)
    have hdiv : (fun x : ℤ => x / 1000 / mib) = fun x => x / (1000 * mib) :=
      funext fun x => Int.ediv_ediv_of_nonneg (by norm_num)
    dsimp only
    rw [hfloor, hdiv]
    exact hread
  | gibi =>
    have hvalue : Quantity.value ⟨z, .gibi⟩ / mib = ((z * 1024 : ℤ) : ℚ) := by
      simp only [Quantity.value, Suffix.scale, mib]
      push_cast
      ring
    have hread := orZero_product_iff (Value.computes_ofRat z) (Value.ofRat_ne_nan z)
      (by norm_num : (1024 : ℤ) ≠ 0)
    change _ ↔ Binary64.IsDouble (Quantity.value ⟨z, .gibi⟩ / mib)
    rw [hvalue, Int.floor_intCast]
    exact hread
  | tebi =>
    have hvalue : Quantity.value ⟨z, .tebi⟩ / mib = ((z * 1024 * 1024 : ℤ) : ℚ) := by
      simp only [Quantity.value, Suffix.scale, mib]
      push_cast
      ring
    have hread := orZero_product_iff
      ((Value.computes_ofRat z).times (by norm_num : (1024 : ℤ) ≠ 0))
      (Value.times_ne_nan (Value.ofRat_ne_nan z) _) (by norm_num : (1024 : ℤ) ≠ 0)
    change _ ↔ Binary64.IsDouble (Quantity.value ⟨z, .tebi⟩ / mib)
    rw [hvalue, Int.floor_intCast]
    exact hread
  | kilo => exact decimal_iff z (by norm_num [Suffix.scale]) _
  | mega => exact decimal_iff z (by norm_num [Suffix.scale]) _
  | giga => exact decimal_iff z (by norm_num [Suffix.scale]) _
  | tera => exact decimal_iff z (by norm_num [Suffix.scale]) _
  | one =>
    have hvalue : Quantity.value ⟨z, .one⟩ = z := mul_one _
    change _ ↔ StaysInMib (Quantity.value ⟨z, .one⟩)
    rw [hvalue]
    exact bytes_iff z
  | exponent upper e => exact bytes_iff _
  | _ => exact ok_zero_iff _

/-- Which quantities are read to the last unit. -/
theorem quantity_read_iff (q : Quantity) :
    (parseCpu q.text = .ok ⌊q.value * 1000⌋ ↔ q.ReadAsCpu) ∧
      (parseMemory q.text = .ok ⌊q.value / mib⌋ ↔ q.ReadAsMemory) :=
  ⟨parseCpu_iff q, parseMemory_iff q⟩

/-- 1500u of a processor are more than one millicore. -/
theorem misread_micro : ¬ (parseCpu (Quantity.text ⟨1500, .micro⟩) =
    .ok ⌊Quantity.value ⟨1500, .micro⟩ * 1000⌋) := by
  rw [parseCpu_iff]
  rintro ⟨-, hlt⟩
  simp only [Quantity.value, Suffix.scale] at hlt
  norm_num at hlt

end Eyot.Quantities
