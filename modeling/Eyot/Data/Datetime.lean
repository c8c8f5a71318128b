import Eyot.Data.Text
import Mathlib.Data.Fintype.EquivFin
import Mathlib.Order.Basic

/-! Dates and times in UTC, to the microsecond, and the texts they are written as. -/

namespace Eyot

/-! Numbers of a fixed width. -/

def digit (n : Nat) : Char := Char.ofNat (48 + n)

def digits : Nat → Nat → Str
  | 0, _ => []
  | w + 1, n => digits w (n / 10) ++ [digit (n % 10)]

def addDigit (n : Nat) (c : Char) : Option Nat :=
  if 48 ≤ c.toNat ∧ c.toNat ≤ 57 then some (10 * n + (c.toNat - 48)) else none

def number? (text : Str) : Option Nat := text.foldlM addDigit 0

theorem digit_toNat {n : Nat} (h : n < 10) : (digit n).toNat = 48 + n := by
  have hall : ∀ n : Fin 10, (digit n.val).toNat = 48 + n.val := by decide
  exact hall ⟨n, h⟩

theorem addDigit_digit {n d : Nat} (h : d < 10) : addDigit n (digit d) = some (10 * n + d) := by
  rw [addDigit, digit_toNat h, if_pos (by omega)]
  congr 1
  omega

theorem length_digits (w n : Nat) : (digits w n).length = w := by
  induction w generalizing n with
  | zero => rfl
  | succ w ih => rw [digits, List.length_append, ih, List.length_singleton]

theorem number?_digits {w n : Nat} (h : n < 10 ^ w) : number? (digits w n) = some n := by
  induction w generalizing n with
  | zero =>
    obtain rfl : n = 0 := by simpa using h
    rfl
  | succ w ih =>
    have hdiv : n / 10 < 10 ^ w := by
      rw [pow_succ] at h
      omega
    rw [digits, number?, List.foldlM_append]
    change (number? (digits w (n / 10)) >>= fun m => [digit (n % 10)].foldlM addDigit m) = some n
    rw [ih hdiv]
    change addDigit (n / 10) (digit (n % 10)) >>= pure = some n
    rw [addDigit_digit (Nat.mod_lt n (by omega))]
    exact congrArg some (by omega)

/-- A number of that width in front of the rest. -/
def readNumber (w : Nat) (text : Str) : Option (Nat × Str) :=
  if text.length < w then none else (number? (text.take w)).map (·, text.drop w)

def readChar (c : Char) : Str → Option Str
  | [] => none
  | c' :: text => if c' = c then some text else none

theorem readNumber_digits {w n : Nat} (h : n < 10 ^ w) (rest : Str) :
    readNumber w (digits w n ++ rest) = some (n, rest) := by
  have hlen := length_digits w n
  rw [readNumber, if_neg (by rw [List.length_append]; omega),
    List.take_left' hlen, List.drop_left' hlen, number?_digits h]
  rfl

theorem readChar_cons (c : Char) (rest : Str) : readChar c (c :: rest) = some rest := if_pos rfl

/-! Dates. -/

def isLeap (year : Nat) : Bool := year % 4 = 0 && (year % 100 ≠ 0 || year % 400 = 0)

def daysInMonth (year month : Nat) : Nat :=
  if month = 2 then if isLeap year then 29 else 28
  else if month = 4 ∨ month = 6 ∨ month = 9 ∨ month = 11 then 30
  else 31

structure DatetimeFields where
  year : Nat
  month : Nat
  day : Nat
  hour : Nat
  minute : Nat
  second : Nat
  microsecond : Nat
  deriving DecidableEq

namespace DatetimeFields

def Valid (d : DatetimeFields) : Prop :=
  (1 ≤ d.year ∧ d.year ≤ 9999) ∧ (1 ≤ d.month ∧ d.month ≤ 12) ∧
    (1 ≤ d.day ∧ d.day ≤ daysInMonth d.year d.month) ∧ d.hour < 24 ∧ d.minute < 60 ∧
    d.second < 60 ∧ d.microsecond < 1000000

instance (d : DatetimeFields) : Decidable d.Valid := inferInstanceAs (Decidable (_ ∧ _))

theorem daysInMonth_le (year month : Nat) : daysInMonth year month ≤ 31 := by
  rw [daysInMonth]
  split
  · split <;> omega
  · split <;> omega

/-- The fields as one number, which grows with the time. -/
def stamp (d : DatetimeFields) : Nat :=
  (((((d.year * 13 + d.month) * 32 + d.day) * 24 + d.hour) * 60 + d.minute) * 60 + d.second) *
    1000000 + d.microsecond

theorem stamp_injOn {d e : DatetimeFields} (hd : d.Valid) (he : e.Valid)
    (h : d.stamp = e.stamp) : d = e := by
  obtain ⟨_, hdm, hdd, hdh, hdn, hds, hdu⟩ := hd
  obtain ⟨_, hem, hed, heh, hen, hes, heu⟩ := he
  have hday := daysInMonth_le d.year d.month
  have hday' := daysInMonth_le e.year e.month
  obtain ⟨y, mo, da, ho, mi, se, us⟩ := d
  obtain ⟨y', mo', da', ho', mi', se', us'⟩ := e
  simp only [stamp] at h hdm hdd hdh hdn hds hdu hem hed heh hen hes heu hday hday'
  simp only [mk.injEq]
  omega

theorem stamp_lt {d : DatetimeFields} (hd : d.Valid) : d.stamp < 10000 * 13 * 32 * 86400000000 := by
  obtain ⟨⟨_, hdy⟩, ⟨_, hdm⟩, hdd, hdh, hdn, hds, hdu⟩ := hd
  have hday := daysInMonth_le d.year d.month
  rw [stamp]
  omega

end DatetimeFields

/-- `datetime`, aware and in UTC. -/
structure Datetime extends DatetimeFields where
  valid : toDatetimeFields.Valid

namespace Datetime

def stamp (d : Datetime) : Nat := d.toDatetimeFields.stamp

theorem ext_fields {d e : Datetime} (h : d.toDatetimeFields = e.toDatetimeFields) : d = e := by
  obtain ⟨d, _⟩ := d
  obtain ⟨e, _⟩ := e
  obtain rfl : d = e := h
  rfl

theorem stamp_injective : Function.Injective stamp := fun d e h =>
  ext_fields (DatetimeFields.stamp_injOn d.valid e.valid h)

instance : Finite Datetime :=
  .of_injective (fun d => (⟨d.stamp, DatetimeFields.stamp_lt d.valid⟩ :
    Fin (10000 * 13 * 32 * 86400000000))) fun _ _ h => stamp_injective (congrArg Fin.val h)

instance : LinearOrder Datetime := LinearOrder.lift' stamp stamp_injective

/-! Texts. -/

def utcOffset : Str := "+00:00".toList

/-- The fraction is left out where it is zero. -/
def fraction (microsecond : Nat) : Str :=
  if microsecond = 0 then [] else '.' :: digits 6 microsecond

def text (sep : Char) (d : Datetime) : Str :=
  digits 4 d.year ++ '-' :: (digits 2 d.month ++ '-' :: (digits 2 d.day ++ sep ::
    (digits 2 d.hour ++ ':' :: (digits 2 d.minute ++ ':' :: (digits 2 d.second ++
      (fraction d.microsecond ++ utcOffset))))))

def isoformat (d : Datetime) : Str := d.text 'T'

/-- `str(d)` -/
def str (d : Datetime) : Str := d.text ' '

def readFraction (text : Str) : Option (Nat × Str) :=
  match readChar '.' text with
  | none => some (0, text)
  | some text => readNumber 6 text

def readOffset (text : Str) : Option Unit := if text = utcOffset then some () else none

/-- `datetime.fromisoformat`, of the texts that `isoformat` writes. -/
def fromisoformat (text : Str) : Option Datetime := do
  let (year, text) ← readNumber 4 text
  let text ← readChar '-' text
  let (month, text) ← readNumber 2 text
  let text ← readChar '-' text
  let (day, text) ← readNumber 2 text
  let text ← readChar 'T' text
  let (hour, text) ← readNumber 2 text
  let text ← readChar ':' text
  let (minute, text) ← readNumber 2 text
  let text ← readChar ':' text
  let (second, text) ← readNumber 2 text
  let (microsecond, text) ← readFraction text
  readOffset text
  let fields : DatetimeFields := ⟨year, month, day, hour, minute, second, microsecond⟩
  if h : fields.Valid then some ⟨fields, h⟩ else none

theorem readFraction_fraction {n : Nat} (h : n < 1000000) :
    readFraction (fraction n ++ utcOffset) = some (n, utcOffset) := by
  rw [fraction]
  split
  · rename_i hn
    subst hn
    rfl
  · rw [List.cons_append, readFraction, readChar_cons]
    exact readNumber_digits h utcOffset

theorem fromisoformat_isoformat (d : Datetime) : fromisoformat d.isoformat = some d := by
  obtain ⟨⟨year, month, day, hour, minute, second, microsecond⟩, hvalid⟩ := d
  obtain ⟨⟨_, hy⟩, ⟨_, hmo⟩, ⟨_, hd⟩, hh, hmi, hs, hus⟩ := id hvalid
  have hday := DatetimeFields.daysInMonth_le year month
  dsimp only at hy hmo hd hh hmi hs hus hday
  simp only [fromisoformat, isoformat, text]
  rw [readNumber_digits (by omega)]
  simp only [Option.bind_eq_bind, Option.bind_some, readChar_cons]
  rw [readNumber_digits (by omega)]
  simp only [Option.bind_some, readChar_cons]
  rw [readNumber_digits (by omega)]
  simp only [Option.bind_some, readChar_cons]
  rw [readNumber_digits (by omega)]
  simp only [Option.bind_some, readChar_cons]
  rw [readNumber_digits (by omega)]
  simp only [Option.bind_some, readChar_cons]
  rw [readNumber_digits (by omega)]
  simp only [Option.bind_some, readFraction_fraction hus, readOffset, if_true]
  exact dif_pos hvalid

end Datetime

end Eyot
