import Eyot.Data.Text
import Eyot.Library.Spelling
import Mathlib.Data.Fintype.EquivFin

/-! Code points as UTF-16 units: what is ASCII, and what is white space, can be told either way. -/

namespace Eyot

open Scan

theorem isEcmaSpace_newline {c : Char} (h : c.toNat = 10) : isEcmaSpace c.toNat = true :=
  congrArg isEcmaSpace h

theorem isEcmaSpace_visible {c : Char} (hlo : 33 ≤ c.toNat) (hhi : c.toNat ≤ 126) :
    isEcmaSpace c.toNat = false := by
  simp only [isEcmaSpace, Bool.or_eq_false_iff, Bool.and_eq_false_iff, decide_eq_false_iff_not]
  omega

theorem toNat_inj {c d : Char} (h : c.toNat = d.toNat) : c = d := Char.toNat_inj.mp h

theorem toNat_ascii (c : Char) (_ : c.toNat < 128) : c.toNat = c.toNat := rfl

/-- Code points, with the white space of ECMAScript. -/
def ecmaText : Alphabet Char where
  code := Char.toNat
  ofAscii c := c
  isSpace c := isEcmaSpace c.toNat
  code_inj := @toNat_inj
  code_ofAscii := toNat_ascii
  isSpace_newline := @isEcmaSpace_newline
  isSpace_visible := @isEcmaSpace_visible

def utf16 : Spelling Char UInt16 where
  spell c :=
    if c.toNat < 0x10000 then [c.toNat.toUInt16]
    else [(0xD800 + (c.toNat - 0x10000) / 0x400).toUInt16,
      (0xDC00 + (c.toNat - 0x10000) % 0x400).toUInt16]
  spell_ne c := by
    split
    · exact List.cons_ne_nil _ _
    · exact List.cons_ne_nil _ _

/-- A spelling of one alphabet in another that keeps ASCII and white space. -/
structure Spells {α β : Type} (A : Alphabet α) (B : Alphabet β) (e : Spelling α β) : Prop where
  ascii : ∀ a, A.code a < 128 → ∃ b, e.spell a = [b] ∧ B.code b = A.code a
  beyond : ∀ a, 128 ≤ A.code a → ∀ b ∈ e.spell a, 128 ≤ B.code b
  space : e.Agrees A.isSpace B.isSpace
  space_one : ∀ a, A.isSpace a = true → ∃ b, e.spell a = [b]

theorem toNat_toUInt16 {n : Nat} (h : n < 0x10000) : n.toUInt16.toNat = n := by
  rw [Nat.toUInt16, UInt16.toNat_ofNat', Nat.mod_eq_of_lt h]

theorem not_isEcmaSpace {n : Nat} (hlo : 0x3001 ≤ n) (hne : n ≠ 0xFEFF) :
    isEcmaSpace n = false := by
  simp only [isEcmaSpace, Bool.or_eq_false_iff, Bool.and_eq_false_iff, decide_eq_false_iff_not]
  omega

theorem toNat_lt (c : Char) : c.toNat < 0x110000 := by
  have h : c.toNat < 0xD800 ∨ 0xDFFF < c.toNat ∧ c.toNat < 0x110000 := c.valid
  omega

instance finiteChar : Finite Char :=
  .of_injective (fun c => (⟨c.toNat, toNat_lt c⟩ : Fin 0x110000)) fun _ _ h =>
    toNat_inj (Fin.mk.inj h)

theorem utf16_basic {c : Char} (h : c.toNat < 0x10000) : utf16.spell c = [c.toNat.toUInt16] :=
  if_pos h

theorem utf16_surrogates {c : Char} (h : 0x10000 ≤ c.toNat) :
    utf16.spell c = [(0xD800 + (c.toNat - 0x10000) / 0x400).toUInt16,
      (0xDC00 + (c.toNat - 0x10000) % 0x400).toUInt16] :=
  if_neg (Nat.not_lt.mpr h)

/-- Both letters of a character beyond the basic plane are surrogates. -/
theorem mem_utf16 {c : Char} (h : 0x10000 ≤ c.toNat) {u : UInt16} (hu : u ∈ utf16.spell c) :
    0xD800 ≤ u.toNat ∧ u.toNat < 0xE000 := by
  have hlt := toNat_lt c
  rw [utf16_surrogates h, List.mem_cons, List.mem_singleton] at hu
  rcases hu with rfl | rfl
  · rw [toNat_toUInt16 (by omega)]
    omega
  · rw [toNat_toUInt16 (by omega)]
    omega

/-- No character's units start as another's. -/
theorem utf16_prefix (a b : Char) (x y : List UInt16)
    (h : utf16.spell a ++ x = utf16.spell b ++ y) : a = b := by
  have ha : a.toNat < 0xD800 ∨ 0xDFFF < a.toNat ∧ a.toNat < 0x110000 := a.valid
  have hb : b.toNat < 0xD800 ∨ 0xDFFF < b.toNat ∧ b.toNat < 0x110000 := b.valid
  apply Char.toNat_inj.mp
  rcases Nat.lt_or_ge a.toNat 0x10000 with hla | hla
  · rcases Nat.lt_or_ge b.toNat 0x10000 with hlb | hlb
    · rw [utf16_basic hla, utf16_basic hlb] at h
      have hunit := congrArg UInt16.toNat (List.cons.inj h).1
      rwa [toNat_toUInt16 hla, toNat_toUInt16 hlb] at hunit
    · rw [utf16_basic hla, utf16_surrogates hlb] at h
      have hunit := congrArg UInt16.toNat (List.cons.inj h).1
      rw [toNat_toUInt16 hla, toNat_toUInt16 (by omega)] at hunit
      omega
  · rcases Nat.lt_or_ge b.toNat 0x10000 with hlb | hlb
    · rw [utf16_surrogates hla, utf16_basic hlb] at h
      have hunit := congrArg UInt16.toNat (List.cons.inj h).1
      rw [toNat_toUInt16 (by omega), toNat_toUInt16 hlb] at hunit
      omega
    · rw [utf16_surrogates hla, utf16_surrogates hlb] at h
      obtain ⟨hhigh, hrest⟩ := List.cons.inj h
      have hhigh := congrArg UInt16.toNat hhigh
      have hlow := congrArg UInt16.toNat (List.cons.inj hrest).1
      rw [toNat_toUInt16 (by omega), toNat_toUInt16 (by omega)] at hhigh hlow
      omega

theorem utf16_injective : Function.Injective utf16.text :=
  Spelling.text_injective utf16_prefix

theorem spells_utf16 : Spells ecmaText portalText utf16 where
  ascii c hc := by
    have hlt : c.toNat < 128 := hc
    exact ⟨_, utf16_basic (by omega), toNat_toUInt16 (by omega)⟩
  beyond c hc u hu := by
    have hle : 128 ≤ c.toNat := hc
    change 128 ≤ u.toNat
    by_cases hbasic : c.toNat < 0x10000
    · rw [utf16_basic hbasic, List.mem_singleton] at hu
      rwa [hu, toNat_toUInt16 hbasic]
    · have := mem_utf16 (Nat.le_of_not_lt hbasic) hu
      omega
  space c u hu := by
    change isEcmaSpace u.toNat = isEcmaSpace c.toNat
    by_cases hbasic : c.toNat < 0x10000
    · rw [utf16_basic hbasic, List.mem_singleton] at hu
      rw [hu, toNat_toUInt16 hbasic]
    · have := mem_utf16 (Nat.le_of_not_lt hbasic) hu
      rw [not_isEcmaSpace (by omega) (by omega), not_isEcmaSpace (by omega) (by omega)]
  space_one c hc := by
    refine ⟨_, utf16_basic ?_⟩
    by_contra hlarge
    have hspace : isEcmaSpace c.toNat = true := hc
    rw [not_isEcmaSpace (by omega) (by omega)] at hspace
    cases hspace

namespace Spells

variable {α β : Type} {A : Alphabet α} {B : Alphabet β} {e : Spelling α β}

theorem agrees_code (h : Spells A B e) {f : Nat → Bool} (hf : ∀ n, 128 ≤ n → f n = false) :
    e.Agrees (fun a => f (A.code a)) fun b => f (B.code b) := by
  intro a b hb
  change f (B.code b) = f (A.code a)
  by_cases ha : A.code a < 128
  · obtain ⟨b', hs, hcode⟩ := h.ascii a ha
    obtain rfl : b = b' := by simpa [hs] using hb
    rw [hcode]
  · have ha := Nat.le_of_not_lt ha
    rw [hf _ ha, hf _ (h.beyond a ha b hb)]

theorem agrees_is (h : Spells A B e) {c : Char} (hc : c.toNat < 128) :
    e.Agrees (A.is c) (B.is c) :=
  h.agrees_code (f := fun n => n = c.toNat) fun n hn => decide_eq_false (by omega)

theorem beyond_head (h : Spells A B e) {a : α} (ha : 128 ≤ A.code a) :
    ∃ b bs, e.spell a = b :: bs ∧ 128 ≤ B.code b := by
  cases hs : e.spell a with
  | nil => exact absurd hs (e.spell_ne a)
  | cons b bs => exact ⟨b, bs, rfl, h.beyond a ha b (by simp [hs])⟩

/-- A test that only ASCII characters pass, on the first letter of a character. -/
theorem spell_cases (h : Spells A B e) {f : Nat → Bool} (hf : ∀ n, 128 ≤ n → f n = false) (a : α) :
    (∃ b, e.spell a = [b] ∧ f (A.code a) = true ∧ f (B.code b) = true) ∨
      ∃ b bs, e.spell a = b :: bs ∧ f (A.code a) = false ∧ f (B.code b) = false := by
  have hagrees := h.agrees_code hf a
  cases ha : f (A.code a) with
  | true =>
    by_cases hlt : A.code a < 128
    · obtain ⟨b, hs, -⟩ := h.ascii a hlt
      exact .inl ⟨b, hs, rfl, (hagrees b (by simp [hs])).trans ha⟩
    · rw [hf _ (Nat.le_of_not_lt hlt)] at ha
      cases ha
  | false =>
    cases hs : e.spell a with
    | nil => exact absurd hs (e.spell_ne a)
    | cons b bs => exact .inr ⟨b, bs, rfl, rfl, (hagrees b (by simp [hs])).trans ha⟩

theorem spell_is (h : Spells A B e) {c : Char} (hc : c.toNat < 128) (a : α) :
    (∃ b, e.spell a = [b] ∧ A.is c a = true ∧ B.is c b = true) ∨
      ∃ b bs, e.spell a = b :: bs ∧ A.is c a = false ∧ B.is c b = false :=
  h.spell_cases (f := fun n => n = c.toNat) (fun n hn => decide_eq_false (by omega)) a

/-- No pattern that starts with an ASCII character matches inside a spelled character. -/
theorem beyond_inside (h : Spells A B e) {a : α} {u : List β} {b : β} {v : List β}
    (hs : e.spell a = u ++ b :: v) (hu : u ≠ []) : 128 ≤ B.code b := by
  apply h.beyond a
  · by_contra hlt
    obtain ⟨b', hs', -⟩ := h.ascii a (Nat.lt_of_not_le hlt)
    rw [hs'] at hs
    have hlen := congrArg List.length hs
    have := List.length_pos_iff.mpr hu
    simp only [List.length_append, List.length_cons, List.length_nil] at hlen
    omega
  · simp [hs]

theorem text_length (h : Spells A B e) {l : List α} (hl : ∀ a ∈ l, A.code a < 128) :
    (e.text l).length = l.length := by
  induction l with
  | nil => rfl
  | cons a l ih =>
    rw [List.forall_mem_cons] at hl
    obtain ⟨b, hs, -⟩ := h.ascii a hl.1
    simp [hs, ih hl.2]

theorem text_ascii (h : Spells A B e) {s : String} (hs : ∀ c ∈ s.toList, c.toNat < 128) :
    e.text (A.text s) = B.text s := by
  unfold Alphabet.text
  generalize s.toList = cs at hs
  induction cs with
  | nil => rfl
  | cons c cs ih =>
    rw [List.forall_mem_cons] at hs
    have hcode := A.code_ofAscii c hs.1
    obtain ⟨b, hb, hcode'⟩ := h.ascii (A.ofAscii c) (by rw [hcode]; exact hs.1)
    obtain rfl : b = B.ofAscii c :=
      B.code_inj (by rw [hcode', hcode, B.code_ofAscii c hs.1])
    rw [List.map_cons, List.map_cons, Spelling.text_cons, hb, ih hs.2]
    rfl

theorem map_code_take (h : Spells A B e) {codes : List Nat} (hcodes : ∀ n ∈ codes, n < 128)
    (l : List α) : ((e.text l).take codes.length).map B.code = codes ↔
      (l.take codes.length).map A.code = codes := by
  induction codes generalizing l with
  | nil => simp
  | cons n codes ih =>
    rw [List.forall_mem_cons] at hcodes
    cases l with
    | nil => simp
    | cons a l =>
      by_cases ha : A.code a < 128
      · obtain ⟨b, hs, hcode⟩ := h.ascii a ha
        simp only [Spelling.text_cons, hs, List.singleton_append, List.length_cons,
          List.take_succ_cons, List.map_cons, List.cons.injEq, hcode, ih hcodes.2]
      · obtain ⟨b, bs, hs, hb⟩ := h.beyond_head (Nat.le_of_not_lt ha)
        have hn := hcodes.1
        simp only [Spelling.text_cons, hs, List.cons_append, List.length_cons,
          List.take_succ_cons, List.map_cons, List.cons.injEq]
        exact iff_of_false (fun heq => by omega) fun heq => by omega

theorem map_code (h : Spells A B e) {codes : List Nat} (hcodes : ∀ n ∈ codes, n < 128)
    (l : List α) : (e.text l).map B.code = codes ↔ l.map A.code = codes := by
  induction codes generalizing l with
  | nil =>
    rw [List.map_eq_nil_iff, List.map_eq_nil_iff]
    exact e.text_eq_nil
  | cons n codes ih =>
    rw [List.forall_mem_cons] at hcodes
    cases l with
    | nil => simp
    | cons a l =>
      by_cases ha : A.code a < 128
      · obtain ⟨b, hs, hcode⟩ := h.ascii a ha
        simp [hs, hcode, ih hcodes.2]
      · obtain ⟨b, bs, hs, hb⟩ := h.beyond_head (Nat.le_of_not_lt ha)
        have hn := hcodes.1
        simp only [Spelling.text_cons, hs, List.cons_append, List.map_cons, List.cons.injEq]
        exact iff_of_false (fun heq => by omega) fun heq => by omega

end Spells

end Eyot
