import Mathlib.Data.List.Basic

/-! UTF-8 read byte by byte. Bytes that are no character are read as U+FFFD, one for each longest
start of a character. -/

namespace Eyot.Utf8

/-- The start of a character: its bits so far, how many bytes are to come, and between which bounds
the next one has to be. -/
structure Pending where
  code : Nat
  left : Nat
  lower : Nat
  upper : Nat
  deriving DecidableEq

/-- What a decoder keeps between two bytes. -/
abbrev Decoder := Option Pending

def replacement : Char := '\uFFFD'

def lead (b : Nat) : List Char × Decoder :=
  if b ≤ 0x7F then ([Char.ofNat b], none)
  else if 0xC2 ≤ b ∧ b ≤ 0xDF then ([], some ⟨b % 0x20, 1, 0x80, 0xBF⟩)
  else if 0xE0 ≤ b ∧ b ≤ 0xEF then
    ([], some ⟨b % 0x10, 2, if b = 0xE0 then 0xA0 else 0x80, if b = 0xED then 0x9F else 0xBF⟩)
  else if 0xF0 ≤ b ∧ b ≤ 0xF4 then
    ([], some ⟨b % 0x8, 3, if b = 0xF0 then 0x90 else 0x80, if b = 0xF4 then 0x8F else 0xBF⟩)
  else ([replacement], none)

def next : Decoder → Nat → List Char × Decoder
  | none, b => lead b
  | some p, b =>
    if p.lower ≤ b ∧ b ≤ p.upper then
      if p.left = 1 then ([Char.ofNat (p.code * 0x40 + b % 0x40)], none)
      else ([], some ⟨p.code * 0x40 + b % 0x40, p.left - 1, 0x80, 0xBF⟩)
    else (replacement :: (lead b).1, (lead b).2)

/-- The characters that bytes complete, and what is left of the last one. -/
def feed : Decoder → List UInt8 → List Char × Decoder
  | d, [] => ([], d)
  | d, b :: bs =>
    ((next d b.toNat).1 ++ (feed (next d b.toNat).2 bs).1, (feed (next d b.toNat).2 bs).2)

/-- The end of the bytes ends a character that has been started. -/
def flush : Decoder → List Char
  | none => []
  | some _ => [replacement]

/-- Bytes that stand for themselves. -/
def decode (bs : List UInt8) : List Char := (feed none bs).1 ++ flush (feed none bs).2

def encode (text : List Char) : List UInt8 := text.flatMap String.utf8EncodeChar

theorem feed_append (d : Decoder) (as bs : List UInt8) :
    feed d (as ++ bs) = ((feed d as).1 ++ (feed (feed d as).2 bs).1, (feed (feed d as).2 bs).2) := by
  induction as generalizing d with
  | nil => rfl
  | cons a as ih => rw [List.cons_append, feed, feed, ih, List.append_assoc]

theorem toNat_ofNat {n : Nat} (h : n < 256) : (UInt8.ofNat n).toNat = n :=
  UInt8.toNat_ofNat'.trans (Nat.mod_eq_of_lt h)

theorem feed_cons {d d' : Decoder} {n : Nat} (hn : n < 256) {out : List Char}
    (h : next d n = (out, d')) (bs : List UInt8) :
    feed d (UInt8.ofNat n :: bs) = (out ++ (feed d' bs).1, (feed d' bs).2) := by
  rw [feed, toNat_ofNat hn, h]

theorem next_last {code lower upper n : Nat} (h : lower ≤ n ∧ n ≤ upper) :
    next (some ⟨code, 1, lower, upper⟩) n = ([Char.ofNat (code * 0x40 + n % 0x40)], none) := by
  rw [next, if_pos h, if_pos rfl]

theorem next_tail {code left lower upper n : Nat} (h : lower ≤ n ∧ n ≤ upper) (hleft : left ≠ 0) :
    next (some ⟨code, left + 1, lower, upper⟩) n =
      ([], some ⟨code * 0x40 + n % 0x40, left, 0x80, 0xBF⟩) := by
  rw [next, if_pos h, if_neg (by simpa using hleft), Nat.add_sub_cancel]

theorem lead_two {n : Nat} (h : 0xC2 ≤ n ∧ n ≤ 0xDF) :
    next none n = ([], some ⟨n % 0x20, 1, 0x80, 0xBF⟩) := by
  rw [next, lead, if_neg (by omega), if_pos h]

theorem lead_three {n : Nat} (h : 0xE0 ≤ n ∧ n ≤ 0xEF) :
    next none n = ([], some ⟨n % 0x10, 2, if n = 0xE0 then 0xA0 else 0x80,
      if n = 0xED then 0x9F else 0xBF⟩) := by
  rw [next, lead, if_neg (by omega), if_neg (by omega), if_pos h]

theorem lead_four {n : Nat} (h : 0xF0 ≤ n ∧ n ≤ 0xF4) :
    next none n = ([], some ⟨n % 0x8, 3, if n = 0xF0 then 0x90 else 0x80,
      if n = 0xF4 then 0x8F else 0xBF⟩) := by
  rw [next, lead, if_neg (by omega), if_neg (by omega), if_neg (by omega), if_pos h]

theorem feed_encodeChar (c : Char) : feed none (String.utf8EncodeChar c) = ([c], none) := by
  have hvalid : c.val.toNat < 0xD800 ∨ 0xDFFF < c.val.toNat ∧ c.val.toNat < 0x110000 := c.valid
  have hc : Char.ofNat c.val.toNat = c := Char.ofNat_toNat c
  rw [String.utf8EncodeChar]
  generalize c.val.toNat = v at hvalid hc
  subst hc
  split
  · rename_i h₁
    rw [feed_cons (by omega) (by rw [next, lead, if_pos h₁])]
    rfl
  · split
    · rw [feed_cons (by omega) (lead_two (by omega)), feed_cons (by omega) (next_last (by omega))]
      have hcode : (v / 64 % 0x20 + 0xC0) % 0x20 * 0x40 + (v % 0x40 + 0x80) % 0x40 = v := by omega
      rw [hcode]
      rfl
    · split
      · rw [feed_cons (by omega) (lead_three (by omega)),
          feed_cons (by omega) (next_tail (by split <;> split <;> omega) (by omega)),
          feed_cons (by omega) (next_last (by omega))]
        have hcode : ((v / 4096 % 0x10 + 0xE0) % 0x10 * 0x40 + (v / 64 % 0x40 + 0x80) % 0x40) * 0x40 +
            (v % 0x40 + 0x80) % 0x40 = v := by omega
        rw [hcode]
        rfl
      · rw [feed_cons (by omega) (lead_four (by omega)),
          feed_cons (by omega) (next_tail (by split <;> split <;> omega) (by omega)),
          feed_cons (by omega) (next_tail (by omega) (by omega)),
          feed_cons (by omega) (next_last (by omega))]
        have hcode : (((v / 262144 % 0x08 + 0xF0) % 0x8 * 0x40 + (v / 4096 % 0x40 + 0x80) % 0x40) *
            0x40 + (v / 64 % 0x40 + 0x80) % 0x40) * 0x40 + (v % 0x40 + 0x80) % 0x40 = v := by omega
        rw [hcode]
        rfl

theorem feed_encode (text : List Char) : feed none (encode text) = (text, none) := by
  induction text with
  | nil => rfl
  | cons c text ih =>
    rw [encode, List.flatMap_cons, feed_append, feed_encodeChar]
    change ([c] ++ (feed none (encode text)).1, (feed none (encode text)).2) = (c :: text, none)
    rw [ih]
    rfl

theorem decode_encode_append (text : List Char) (bs : List UInt8) :
    decode (encode text ++ bs) = text ++ decode bs := by
  rw [decode, decode, feed_append, feed_encode, List.append_assoc]

theorem decode_encode (text : List Char) : decode (encode text) = text := by
  have h := decode_encode_append text []
  rw [List.append_nil] at h
  exact h.trans (List.append_nil text)

theorem encode_append (s t : List Char) : encode (s ++ t) = encode s ++ encode t :=
  List.flatMap_append

/-- An encoding that starts with another one goes on with an encoding. -/
theorem exists_of_encode_append {s t : List Char} {bs : List UInt8}
    (h : encode s ++ bs = encode t) : ∃ u, t = s ++ u ∧ bs = encode u := by
  have hfeed := congrArg Prod.fst (congrArg (feed none) h)
  rw [feed_append, feed_encode, feed_encode] at hfeed
  change s ++ (feed none bs).1 = t at hfeed
  refine ⟨_, hfeed.symm, ?_⟩
  rw [← hfeed, encode_append] at h
  exact List.append_cancel_left h

/-! A line feed comes of its own byte only. -/

/-- The last byte to come cannot make a character below U+0040. -/
def Pending.Wide (p : Pending) : Prop :=
  0x80 ≤ p.lower ∧ p.upper ≤ 0xBF ∧ (0 < p.code ∨ p.left ≠ 1 ∧ 0x80 < p.lower)

theorem ofNat_ne_newline {n : Nat} (h : n ≠ 10) : '\n' ≠ Char.ofNat n := by
  intro heq
  have hnat := congrArg Char.toNat heq
  by_cases hvalid : n.isValidChar
  · rw [Char.ofNat.eq_def n, dif_pos hvalid] at hnat
    exact h hnat.symm
  · rw [Char.ofNat.eq_def n, dif_neg hvalid] at hnat
    cases hnat

theorem lead_wide {b : Nat} (hb : b ≠ 10) :
    '\n' ∉ (lead b).1 ∧ ∀ p, (lead b).2 = some p → p.Wide := by
  rw [lead]
  split
  · exact ⟨by simpa using ofNat_ne_newline hb, nofun⟩
  · split
    · refine ⟨List.not_mem_nil, fun p hp => ?_⟩
      cases hp
      simp only [Pending.Wide]
      omega
    · split
      · refine ⟨List.not_mem_nil, fun p hp => ?_⟩
        cases hp
        simp only [Pending.Wide]
        split <;> split <;> omega
      · split
        · refine ⟨List.not_mem_nil, fun p hp => ?_⟩
          cases hp
          simp only [Pending.Wide]
          split <;> split <;> omega
        · exact ⟨by decide, nofun⟩

theorem next_wide {d : Decoder} (hd : ∀ p, d = some p → p.Wide) {b : Nat} (hb : b ≠ 10) :
    '\n' ∉ (next d b).1 ∧ ∀ p, (next d b).2 = some p → p.Wide := by
  cases d with
  | none => exact lead_wide hb
  | some p =>
    obtain ⟨hlower, hupper, hcode⟩ := hd p rfl
    rw [next]
    split
    · split
      · refine ⟨?_, nofun⟩
        have hne : p.code * 0x40 + b % 0x40 ≠ 10 := by omega
        simpa using ofNat_ne_newline hne
      · refine ⟨List.not_mem_nil, fun q hq => ?_⟩
        cases hq
        simp only [Pending.Wide]
        omega
    · refine ⟨?_, (lead_wide hb).2⟩
      rw [List.mem_cons, not_or]
      exact ⟨by decide, (lead_wide hb).1⟩

theorem feed_wide {d : Decoder} (hd : ∀ p, d = some p → p.Wide) {bs : List UInt8}
    (hbs : 10 ∉ bs) : '\n' ∉ (feed d bs).1 := by
  induction bs generalizing d with
  | nil => exact List.not_mem_nil
  | cons b bs ih =>
    rw [List.mem_cons, not_or] at hbs
    have hb : b.toNat ≠ 10 := fun h => hbs.1 (UInt8.toNat_inj.mp h).symm
    have hnext := next_wide hd hb
    rw [feed, List.mem_append, not_or]
    exact ⟨hnext.1, ih hnext.2 hbs.2⟩

theorem newline_not_mem_decode {bs : List UInt8} (h : 10 ∉ bs) : '\n' ∉ decode bs := by
  rw [decode, List.mem_append, not_or]
  refine ⟨feed_wide (fun p hp => by cases hp) h, ?_⟩
  cases (feed none bs).2 with
  | none => exact List.not_mem_nil
  | some p =>
    rw [flush, List.mem_singleton]
    decide

/-- Bytes of ASCII stand each for its own character. -/
theorem decode_ascii {bs : List UInt8} (h : ∀ b ∈ bs, b.toNat < 0x80) :
    decode bs = bs.map fun b => Char.ofNat b.toNat := by
  have hfeed : feed none bs = (bs.map fun b => Char.ofNat b.toNat, none) := by
    induction bs with
    | nil => rfl
    | cons b bs ih =>
      rw [List.forall_mem_cons] at h
      rw [feed, next, lead, if_pos (by omega)]
      change ([_] ++ (feed none bs).1, (feed none bs).2) = _
      rw [ih h.2]
      rfl
  rw [decode, hfeed]
  exact List.append_nil _

end Eyot.Utf8
