import Eyot.Data.PyStr
import Eyot.Library.Scan

/-! Which texts `uuid.UUID` takes, and the text of a UUID. -/

namespace Eyot.PyUuid

/-- The zeros of all scripts with decimal digits; nine digits come after each. -/
def ZEROS : List Nat :=
  [0x30, 0x660, 0x6F0, 0x7C0, 0x966, 0x9E6, 0xA66, 0xAE6, 0xB66, 0xBE6, 0xC66, 0xCE6, 0xD66, 0xDE6,
    0xE50, 0xED0, 0xF20, 0x1040, 0x1090, 0x17E0, 0x1810, 0x1946, 0x19D0, 0x1A80, 0x1A90, 0x1B50,
    0x1BB0, 0x1C40, 0x1C50, 0xA620, 0xA8D0, 0xA900, 0xA9D0, 0xA9F0, 0xAA50, 0xABF0, 0xFF10, 0x104A0,
    0x10D30, 0x11066, 0x110F0, 0x11136, 0x111D0, 0x112F0, 0x11450, 0x114D0, 0x11650, 0x116C0,
    0x11730, 0x118E0, 0x11950, 0x11C50, 0x11D50, 0x11DA0, 0x11F50, 0x16A60, 0x16AC0, 0x16B50,
    0x1D7CE, 0x1D7D8, 0x1D7E2, 0x1D7EC, 0x1D7F6, 0x1E140, 0x1E2F0, 0x1E4F0, 0x1E950, 0x1FBF0]

def isZero (c : PyChar) : Bool := ZEROS.contains c.val

def isHexDigit (c : PyChar) : Bool :=
  ZEROS.any (fun z => z ≤ c.val && c.val < z + 10) || 0x41 ≤ c.val && c.val ≤ 0x46 ||
    0x61 ≤ c.val && c.val ≤ 0x66

/-- What `int` strips; not the separators of ASCII. -/
def isIntSpace (c : PyChar) : Bool := isPythonSpace c.val && !(28 ≤ c.val && c.val ≤ 31)

def withoutSign : PyStr → PyStr
  | [] => []
  | c :: l => if c.val = 0x2B || c.val = 0x2D then l else c :: l

/-- Without `0x` and one underscore after it. -/
def withoutBase : PyStr → PyStr
  | z :: x :: l =>
    if isZero z && (x.val = 0x58 || x.val = 0x78) then
      if l.head?.any fun c => c.val = 0x5F then l.tail else l
    else z :: x :: l
  | l => l

/-- `int(text, 16)` gives a number. -/
def isInt16 (l : PyStr) : Bool :=
  ((withoutBase (withoutSign (Scan.strip isIntSpace l))).splitOnP fun c => c.val = 0x5F).all
    fun digits => digits ≠ [] && digits.all isHexDigit

/-- `text.replace(old, "")`; `n` more characters of an occurrence are left out. -/
def without (old : PyStr) : Nat → PyStr → PyStr
  | _, [] => []
  | n + 1, _ :: l => without old n l
  | 0, c :: l =>
    if old.isPrefixOf (c :: l) then without old (old.length - 1) l else c :: without old 0 l

def isBrace (c : PyChar) : Bool := c.val = 0x7B || c.val = 0x7D

def isDash (c : PyChar) : Bool := c.val = 0x2D

/-- `uuid.UUID(value)` gives a UUID. -/
def isUuid (value : PyStr) : Bool :=
  let hex := (Scan.strip isBrace (without (py "uuid:") 0 (without (py "urn:") 0 value))).filter
    fun c => !isDash c
  hex.length = 32 && isInt16 hex

def hexDigit (d : Nat) : PyChar := .ofNat (if d < 10 then 0x30 + d else 0x57 + d)

/-- `'%032x' % n` -/
def hexText (n : Nat) : PyStr := (List.range 32).map fun i => hexDigit (n / 16 ^ (31 - i) % 16)

/-- `str(uuid.UUID(int=n))` -/
def uuidText (n : Nat) : PyStr :=
  let hex := hexText n
  Scan.slice hex 0 8 ++ py "-" ++ Scan.slice hex 8 12 ++ py "-" ++ Scan.slice hex 12 16 ++ py "-" ++
    Scan.slice hex 16 20 ++ py "-" ++ hex.drop 20

/-! The text of a UUID is one. -/

/-- A digit as it is written. -/
def IsPlain (c : PyChar) : Prop := 0x30 ≤ c.val ∧ c.val ≤ 0x39 ∨ 0x61 ≤ c.val ∧ c.val ≤ 0x66

theorem isPlain_hexDigit {d : Nat} (h : d < 16) : IsPlain (hexDigit d) := by
  unfold IsPlain hexDigit PyChar.ofNat
  split
  · rw [Fin.val_ofNat, Nat.mod_eq_of_lt (by omega)]
    omega
  · rw [Fin.val_ofNat, Nat.mod_eq_of_lt (by omega)]
    omega

theorem isPlain_hexText {n : Nat} : ∀ c ∈ hexText n, IsPlain c := by
  intro c hc
  obtain ⟨i, -, rfl⟩ := List.mem_map.mp hc
  exact isPlain_hexDigit (Nat.mod_lt _ (by decide))

theorem IsPlain.isHexDigit {c : PyChar} (h : IsPlain c) : isHexDigit c = true := by
  unfold PyUuid.isHexDigit
  rcases h with ⟨hlo, hhi⟩ | ⟨hlo, hhi⟩
  · have hzero : ZEROS.any (fun z => z ≤ c.val && c.val < z + 10) = true := by
      refine List.any_eq_true.mpr ⟨0x30, by decide, ?_⟩
      rw [Bool.and_eq_true, decide_eq_true_eq, decide_eq_true_eq]
      omega
    rw [hzero, Bool.true_or, Bool.true_or]
  · rw [decide_eq_true hlo, decide_eq_true hhi, Bool.true_and, Bool.or_true]

theorem IsPlain.not_space {c : PyChar} (h : IsPlain c) : isIntSpace c = false := by
  have hvisible : isPythonSpace c.val = false := by
    refine isPythonSpace_visible ?_ ?_
    all_goals rcases h with h | h <;> omega
  rw [isIntSpace, hvisible, Bool.false_and]

theorem isInt16_of_plain {l : PyStr} (hne : l ≠ []) (h : ∀ c ∈ l, IsPlain c) :
    isInt16 l = true := by
  have hstrip : Scan.strip isIntSpace l = l :=
    Scan.strip_eq_self (fun c hc => (h c (List.mem_of_head? hc)).not_space)
      fun c hc => (h c (List.mem_of_getLast? hc)).not_space
  have hsign : withoutSign l = l := by
    cases l with
    | nil => rfl
    | cons c l =>
      have hc := h c List.mem_cons_self
      refine if_neg ?_
      unfold IsPlain at hc
      rw [Bool.or_eq_true, decide_eq_true_eq, decide_eq_true_eq]
      omega
  have hbase : withoutBase l = l := by
    match l, h with
    | [], _ => rfl
    | [_], _ => rfl
    | z :: x :: l, h =>
      have hx := h x (List.mem_cons_of_mem z List.mem_cons_self)
      refine if_neg ?_
      unfold IsPlain at hx
      rw [Bool.and_eq_true, Bool.or_eq_true, decide_eq_true_eq, decide_eq_true_eq]
      omega
  have hsplit : (l.splitOnP fun c => decide (c.val = 0x5F)) = [l] := by
    refine List.splitOnP_eq_singleton fun c hc => ?_
    have hc := h c hc
    unfold IsPlain at hc
    rw [decide_eq_false_iff_not]
    omega
  unfold isInt16
  rw [hstrip, hsign, hbase, hsplit, List.all_cons, List.all_nil, Bool.and_true, Bool.and_eq_true]
  exact ⟨decide_eq_true hne, List.all_eq_true.mpr fun c hc => (h c hc).isHexDigit⟩

theorem without_of_not_mem {c : PyChar} {old : PyStr} {l : PyStr} (h : c ∉ l) :
    without (c :: old) 0 l = l := by
  induction l with
  | nil => rfl
  | cons d l ih =>
    rw [List.mem_cons, not_or] at h
    have hprefix : (c :: old).isPrefixOf (d :: l) = false := by
      rw [List.isPrefixOf, beq_eq_false_iff_ne.mpr h.1, Bool.false_and]
    rw [without, hprefix, if_neg Bool.false_ne_true, ih h.2]

theorem mem_uuidText {n : Nat} : ∀ c ∈ uuidText n, IsPlain c ∨ isDash c = true := by
  have hslice (a b : Nat) : ∀ c ∈ Scan.slice (hexText n) a b, IsPlain c := fun c hc =>
    isPlain_hexText c (List.mem_of_mem_take (List.mem_of_mem_drop hc))
  have hdash : ∀ c ∈ py "-", isDash c = true := List.forall_mem_singleton.mpr (by decide)
  intro c hc
  unfold uuidText at hc
  simp only [List.mem_append] at hc
  rcases hc with (((((((hc | hc) | hc) | hc) | hc) | hc) | hc) | hc) | hc
  · exact .inl (hslice _ _ c hc)
  · exact .inr (hdash c hc)
  · exact .inl (hslice _ _ c hc)
  · exact .inr (hdash c hc)
  · exact .inl (hslice _ _ c hc)
  · exact .inr (hdash c hc)
  · exact .inl (hslice _ _ c hc)
  · exact .inr (hdash c hc)
  · exact .inl (isPlain_hexText c (List.mem_of_mem_drop hc))

theorem filter_uuidText (n : Nat) : (uuidText n).filter (fun c => !isDash c) = hexText n := by
  have hplain {l : PyStr} (h : ∀ c ∈ l, IsPlain c) : l.filter (fun c => !isDash c) = l := by
    refine List.filter_eq_self.mpr fun c hc => ?_
    have hc := h c hc
    unfold IsPlain at hc
    rw [isDash, Bool.not_eq_true', decide_eq_false_iff_not]
    omega
  have hslice (a b : Nat) : (Scan.slice (hexText n) a b).filter (fun c => !isDash c) =
      Scan.slice (hexText n) a b :=
    hplain fun c hc => isPlain_hexText c (List.mem_of_mem_take (List.mem_of_mem_drop hc))
  have hlast : ((hexText n).drop 20).filter (fun c => !isDash c) = (hexText n).drop 20 :=
    hplain fun c hc => isPlain_hexText c (List.mem_of_mem_drop hc)
  have hdash : (py "-").filter (fun c => !isDash c) = [] := by decide
  unfold uuidText
  simp only [List.filter_append, hslice, hlast, hdash, List.append_nil]
  rw [Scan.slice_append_slice _ (by decide) (by decide),
    Scan.slice_append_slice _ (by decide) (by decide),
    Scan.slice_append_slice _ (by decide) (by decide), Scan.slice, List.drop_zero,
    List.take_append_drop]

theorem isUuid_uuidText (n : Nat) : isUuid (uuidText n) = true := by
  have hletter {c : PyChar} (h : 0x67 ≤ c.val) : c ∉ uuidText n := by
    intro hc
    rcases mem_uuidText c hc with hplain | hdash
    · unfold IsPlain at hplain
      omega
    · have hdash := of_decide_eq_true hdash
      omega
  have hurn : without (py "urn:") 0 (uuidText n) = uuidText n :=
    without_of_not_mem (hletter (by decide))
  have huuid : without (py "uuid:") 0 (uuidText n) = uuidText n :=
    without_of_not_mem (hletter (by decide))
  have hbrace : ∀ c ∈ uuidText n, isBrace c = false := by
    intro c hc
    rw [isBrace, Bool.or_eq_false_iff, decide_eq_false_iff_not, decide_eq_false_iff_not]
    exact ⟨fun h => hletter (by omega) hc, fun h => hletter (by omega) hc⟩
  have hstrip : Scan.strip isBrace (uuidText n) = uuidText n :=
    Scan.strip_eq_self (fun c hc => hbrace c (List.mem_of_head? hc))
      fun c hc => hbrace c (List.mem_of_getLast? hc)
  have hlength : (hexText n).length = 32 := by
    rw [hexText, List.length_map, List.length_range]
  have hne : hexText n ≠ [] := List.ne_nil_of_length_pos (by omega)
  unfold isUuid
  rw [hurn, huuid, hstrip, filter_uuidText, Bool.and_eq_true]
  exact ⟨decide_eq_true hlength, isInt16_of_plain hne isPlain_hexText⟩

end Eyot.PyUuid
