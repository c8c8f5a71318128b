import Mathlib.Data.Int.Log
import Mathlib.Data.Nat.Factorization.Basic
import Mathlib.Data.Nat.Prime.Basic
import Mathlib.Data.Rat.Floor
import Mathlib.Tactic.Linarith
import Mathlib.Tactic.Positivity
import Mathlib.Tactic.Ring

/-! Numbers in binary64: what a rational is rounded to, half to even, and which numbers are left as
they are. -/

namespace Eyot.Binary64

/-- A finite number of the format. -/
def IsDouble (x : ℚ) : Prop :=
  ∃ m e : ℤ, |m| < 2 ^ 53 ∧ -1074 ≤ e ∧ e ≤ 971 ∧ x = m * 2 ^ e

/-- The exponent of the last place at `x`. -/
def place (x : ℚ) : ℤ := max (Int.log 2 |x| - 52) (-1074)

def halfEven (x : ℚ) : ℤ :=
  if Int.fract x < 1 / 2 then ⌊x⌋
  else if 1 / 2 < Int.fract x then ⌊x⌋ + 1
  else if ⌊x⌋ % 2 = 0 then ⌊x⌋ else ⌊x⌋ + 1

/-- What `x` is rounded to, unless it is too large. -/
def nearest (x : ℚ) : Option ℚ :=
  let y : ℚ := halfEven (x / 2 ^ place x) * 2 ^ place x
  if |y| < 2 ^ 1024 then some y else none

/-- The integer next to `x` toward zero. -/
def trunc (x : ℚ) : ℤ := if 0 ≤ x then ⌊x⌋ else ⌈x⌉

/-- A value of the format; the signs of zero and of the infinities are left out. -/
inductive Value where
  | finite (x : ℚ)
  | inf
  | nan
  deriving DecidableEq

namespace Value

def ofRat (x : ℚ) : Value :=
  match nearest x with
  | some y => .finite y
  | none => .inf

/-- The product with a positive number. -/
def times : Value → ℚ → Value
  | .finite x, c => ofRat (x * c)
  | v, _ => v

/-- The quotient by a positive number. -/
def dividedBy : Value → ℚ → Value
  | .finite x, c => ofRat (x / c)
  | v, _ => v

/-- Cutting off the fraction leaves `n`. -/
def TruncatesTo (v : Value) (n : ℤ) : Prop := ∃ x, v = .finite x ∧ trunc x = n

end Value

/-! Integers. -/

@[simp]
theorem halfEven_intCast (n : ℤ) : halfEven n = n := by
  rw [halfEven, Int.fract_intCast, Int.floor_intCast, if_pos (by norm_num)]

theorem halfEven_cases (x : ℚ) : halfEven x = ⌊x⌋ ∨ halfEven x = ⌊x⌋ + 1 ∧ Int.fract x ≠ 0 := by
  unfold halfEven
  split_ifs with h₁ h₂ h₃
  · exact .inl rfl
  · exact .inr ⟨rfl, fun h => by rw [h] at h₂; norm_num at h₂⟩
  · exact .inl rfl
  · exact .inr ⟨rfl, fun h => by rw [h] at h₁; norm_num at h₁⟩

theorem halfEven_le {x : ℚ} {n : ℤ} (h : x ≤ n) : halfEven x ≤ n := by
  have hfloor : ⌊x⌋ ≤ n := Int.cast_le.mp ((Int.floor_le x).trans h)
  rcases halfEven_cases x with heq | ⟨heq, hfract⟩
  · rw [heq]
    exact hfloor
  · rw [heq]
    refine Int.add_one_le_of_lt (lt_of_le_of_ne hfloor fun hn => hfract ?_)
    have hx : x = n := le_antisymm h (hn ▸ Int.floor_le x)
    rw [hx, Int.fract_intCast]

theorem le_halfEven {x : ℚ} {n : ℤ} (h : (n : ℚ) ≤ x) : n ≤ halfEven x := by
  have hfloor : n ≤ ⌊x⌋ := Int.le_floor.mpr h
  rcases halfEven_cases x with heq | ⟨heq, _⟩ <;> omega

theorem abs_halfEven_le {x : ℚ} {n : ℤ} (h : |x| ≤ n) : |halfEven x| ≤ n := by
  rw [abs_le] at h ⊢
  exact ⟨le_halfEven (by push_cast; exact h.1), halfEven_le h.2⟩

theorem le_abs_halfEven {x : ℚ} {n : ℤ} (h : (n : ℚ) ≤ |x|) : n ≤ |halfEven x| := by
  rcases le_abs.mp h with h | h
  · exact le_abs.mpr (.inl (le_halfEven h))
  · refine le_abs.mpr (.inr ?_)
    have := halfEven_le (x := x) (n := -n) (by push_cast; linarith)
    omega

@[simp]
theorem trunc_intCast (n : ℤ) : trunc n = n := by
  rw [trunc, Int.floor_intCast, Int.ceil_intCast, ite_self]

theorem abs_trunc_le (x : ℚ) : ((|trunc x| : ℤ) : ℚ) ≤ |x| := by
  unfold trunc
  split_ifs with h
  · rw [abs_of_nonneg h, abs_of_nonneg (Int.floor_nonneg.mpr h)]
    exact Int.floor_le x
  · have hx := (not_le.mp h).le
    rw [abs_of_nonpos hx, abs_of_nonpos (Int.ceil_nonpos.mpr hx)]
    push_cast
    exact neg_le_neg (Int.le_ceil x)

/-- What is cut off to `n` lies less than one away from it, on the side away from zero. -/
theorem trunc_eq_iff {x : ℚ} {n : ℤ} : trunc x = n ↔ |x - n| < 1 ∧ 0 ≤ (x - n) * n := by
  unfold trunc
  rw [abs_lt]
  split_ifs with hx
  · rw [Int.floor_eq_iff]
    constructor
    · rintro ⟨hle, hlt⟩
      have hn : (-1 : ℤ) < n := by exact_mod_cast (by linarith : (-1 : ℚ) < n)
      have hn : (0 : ℚ) ≤ n := by exact_mod_cast Int.add_one_le_of_lt hn
      exact ⟨⟨by linarith, by linarith⟩, mul_nonneg (by linarith) hn⟩
    · rintro ⟨⟨hlow, hhigh⟩, hside⟩
      refine ⟨?_, by linarith⟩
      by_contra hlt
      have hn : (n : ℚ) ≤ 0 := nonpos_of_mul_nonneg_right hside (by linarith)
      linarith
  · rw [Int.ceil_eq_iff]
    constructor
    · rintro ⟨hlt, hle⟩
      have hn : n < 1 := by exact_mod_cast (by linarith : (n : ℚ) < 1)
      have hn : (n : ℚ) ≤ 0 := by exact_mod_cast Int.lt_add_one_iff.mp hn
      exact ⟨⟨by linarith, by linarith⟩, mul_nonneg_of_nonpos_of_nonpos (by linarith) hn⟩
    · rintro ⟨⟨hlow, hhigh⟩, hside⟩
      refine ⟨by linarith, ?_⟩
      by_contra hlt
      have hn : (0 : ℚ) ≤ n := nonneg_of_mul_nonneg_right hside (by linarith)
      linarith

/-! Numbers of the format. -/

theorem isDouble_intCast_of_lt {n : ℤ} (h : |n| < 2 ^ 53) : IsDouble n :=
  ⟨n, 0, h, by norm_num, by norm_num, by rw [zpow_zero, mul_one]⟩

theorem isDouble_zero : IsDouble 0 := by
  rw [← Int.cast_zero]
  exact isDouble_intCast_of_lt (by norm_num)

theorem two_zpow_pos (e : ℤ) : (0 : ℚ) < 2 ^ e := zpow_pos two_pos e

theorem IsDouble.abs_lt {x : ℚ} (h : IsDouble x) : |x| < 2 ^ 1024 := by
  obtain ⟨m, e, hm, _, he, rfl⟩ := h
  have hm' : |(m : ℚ)| < 2 ^ 53 := by exact_mod_cast hm
  have he' : (2 : ℚ) ^ e ≤ 2 ^ (971 : ℤ) := zpow_le_zpow_right₀ one_le_two he
  rw [abs_mul, abs_of_pos (two_zpow_pos e)]
  calc |(m : ℚ)| * 2 ^ e < 2 ^ 53 * 2 ^ e := mul_lt_mul_of_pos_right hm' (two_zpow_pos e)
    _ ≤ 2 ^ 53 * 2 ^ (971 : ℤ) := mul_le_mul_of_nonneg_left he' (by positivity)
    _ = 2 ^ 1024 := by rw [zpow_ofNat, ← pow_add]

/-- A number of the format is a multiple of its last place. -/
theorem place_le {m e : ℤ} (hm : |m| < 2 ^ 53) (he : -1074 ≤ e) (hne : m ≠ 0) :
    place (m * 2 ^ e) ≤ e := by
  refine max_le ?_ he
  have habs : |(m : ℚ) * 2 ^ e| < 2 ^ (e + 53) := by
    rw [abs_mul, abs_of_pos (two_zpow_pos e), zpow_add₀ two_ne_zero, mul_comm]
    refine mul_lt_mul_of_pos_left ?_ (two_zpow_pos e)
    exact_mod_cast hm
  have hpos : (0 : ℚ) < |(m : ℚ) * 2 ^ e| :=
    abs_pos.mpr (mul_ne_zero (Int.cast_ne_zero.mpr hne) (two_zpow_pos e).ne')
  have := (Int.lt_zpow_iff_log_lt one_lt_two hpos).mp habs
  omega

theorem nearest_of_isDouble {x : ℚ} (h : IsDouble x) : nearest x = some x := by
  have hlt := h.abs_lt
  obtain ⟨m, e, hm, he, _, rfl⟩ := h
  have hround : ((halfEven (m * 2 ^ e / 2 ^ place (m * 2 ^ e)) : ℤ) : ℚ) *
      2 ^ place (m * 2 ^ e) = m * 2 ^ e := by
    by_cases hne : m = 0
    · have hzero : halfEven 0 = 0 := halfEven_intCast 0
      rw [hne, Int.cast_zero, zero_mul, zero_div, hzero, Int.cast_zero, zero_mul]
    · obtain ⟨k, hk⟩ := Int.eq_ofNat_of_zero_le (sub_nonneg.mpr (place_le hm he hne))
      have hdiv : (m : ℚ) * 2 ^ e / 2 ^ place (m * 2 ^ e) = ((m * 2 ^ k : ℤ) : ℚ) := by
        rw [mul_div_assoc, ← zpow_sub₀ two_ne_zero, hk]
        push_cast
        rw [zpow_natCast]
      rw [hdiv, halfEven_intCast, ← hdiv, div_mul_cancel₀ _ (two_zpow_pos _).ne']
  unfold nearest
  dsimp only
  rw [hround, if_pos hlt]

theorem abs_halfEven_place_le (x : ℚ) : |halfEven (x / 2 ^ place x)| ≤ 2 ^ 53 := by
  refine abs_halfEven_le ?_
  rw [abs_div, abs_of_pos (two_zpow_pos _), div_le_iff₀ (two_zpow_pos _)]
  have hlog : Int.log 2 |x| + 1 ≤ 53 + place x := by
    have : Int.log 2 |x| - 52 ≤ place x := le_max_left _ _
    omega
  calc |x| ≤ 2 ^ (Int.log 2 |x| + 1) := (Int.lt_zpow_succ_log_self one_lt_two _).le
    _ ≤ 2 ^ (53 + place x) := zpow_le_zpow_right₀ one_le_two hlog
    _ = ((2 ^ 53 : ℤ) : ℚ) * 2 ^ place x := by rw [zpow_add₀ two_ne_zero]; norm_num

/-- Above the least exponent no leading place is lost. -/
theorem le_abs_halfEven_place {x : ℚ} (hne : x ≠ 0) (h : place x ≠ -1074) :
    2 ^ 52 ≤ |halfEven (x / 2 ^ place x)| := by
  have hplace : place x = Int.log 2 |x| - 52 := (max_choice _ _).resolve_right h
  refine le_abs_halfEven ?_
  rw [abs_div, abs_of_pos (two_zpow_pos _), le_div_iff₀ (two_zpow_pos _)]
  calc ((2 ^ 52 : ℤ) : ℚ) * 2 ^ place x = 2 ^ (52 + place x) := by
        rw [zpow_add₀ two_ne_zero]
        norm_num
    _ = 2 ^ Int.log 2 |x| := by rw [hplace, add_sub_cancel]
    _ ≤ |x| := Int.zpow_log_le_self one_lt_two (abs_pos.mpr hne)

theorem zpow_lt_of_abs_lt {k : ℕ} {n q : ℤ} (hn : 2 ^ k ≤ |n|)
    (h : |(n : ℚ) * 2 ^ q| < 2 ^ 1024) : k + q < 1024 := by
  have hpow : (2 : ℚ) ^ (k + q) < 2 ^ (1024 : ℤ) := by
    rw [abs_mul, abs_of_pos (two_zpow_pos q)] at h
    calc (2 : ℚ) ^ (k + q) = 2 ^ k * 2 ^ q := by rw [zpow_add₀ two_ne_zero, zpow_natCast]
      _ ≤ |(n : ℚ)| * 2 ^ q := by
        refine mul_le_mul_of_nonneg_right ?_ (two_zpow_pos q).le
        exact_mod_cast hn
      _ < 2 ^ 1024 := h
      _ = 2 ^ (1024 : ℤ) := by rw [zpow_ofNat]
  exact (zpow_lt_zpow_iff_right₀ one_lt_two).mp hpow

theorem isDouble_of_nearest {x y : ℚ} (h : nearest x = some y) : IsDouble y := by
  by_cases hne : x = 0
  · rw [hne, nearest_of_isDouble isDouble_zero] at h
    exact Option.some.inj h ▸ isDouble_zero
  have hn := abs_halfEven_place_le x
  have hlow := le_abs_halfEven_place hne
  have hq : -1074 ≤ place x := le_max_right _ _
  unfold nearest at h
  dsimp only at h
  split at h
  swap
  · cases h
  rename_i hlt
  obtain rfl := Option.some.inj h
  generalize halfEven (x / 2 ^ place x) = n at *
  generalize place x = q at *
  by_cases htop : |n| < 2 ^ 53
  · refine ⟨n, q, htop, hq, ?_, rfl⟩
    by_cases hmin : q = -1074
    · omega
    · have := zpow_lt_of_abs_lt (hlow hmin) hlt
      omega
  -- The significand was rounded up to a power of two.
  · have hpow : |n| = 2 ^ 53 := le_antisymm hn (not_lt.mp htop)
    have := zpow_lt_of_abs_lt hpow.ge hlt
    rcases abs_eq (by norm_num) |>.mp hpow with rfl | rfl
    · refine ⟨2 ^ 52, q + 1, by norm_num, by omega, by omega, ?_⟩
      rw [zpow_add₀ two_ne_zero]
      push_cast
      ring
    · refine ⟨-2 ^ 52, q + 1, by norm_num, by omega, by omega, ?_⟩
      rw [zpow_add₀ two_ne_zero]
      push_cast
      ring

/-- Up to a power of two, what is rounded stays up to it. -/
theorem exists_nearest_of_abs_le {x : ℚ} {k : ℕ} (h : |x| ≤ 2 ^ k) (hk : k < 1024) :
    ∃ y, nearest x = some y ∧ |y| ≤ 2 ^ k := by
  have hplace : place x ≤ k := by
    refine max_le ?_ (by omega)
    by_cases hne : x = 0
    · rw [hne, abs_zero, Int.log_zero_right]
      omega
    · have hlt : |x| < ((2 : ℕ) : ℚ) ^ ((k : ℤ) + 1) := by
        push_cast
        rw [zpow_add₀ two_ne_zero, zpow_natCast, zpow_one]
        have : (0 : ℚ) < 2 ^ k := by positivity
        linarith
      have := (Int.lt_zpow_iff_log_lt one_lt_two (abs_pos.mpr hne)).mp hlt
      omega
  obtain ⟨j, hj⟩ := Int.eq_ofNat_of_zero_le (sub_nonneg.mpr hplace)
  have hpow : (2 : ℚ) ^ k = (2 ^ j : ℤ) * 2 ^ place x := by
    push_cast
    rw [← zpow_natCast, ← zpow_natCast, ← zpow_add₀ two_ne_zero]
    congr 1
    omega
  have hround : |(halfEven (x / 2 ^ place x) : ℚ) * 2 ^ place x| ≤ 2 ^ k := by
    rw [abs_mul, abs_of_pos (two_zpow_pos _), hpow]
    refine mul_le_mul_of_nonneg_right ?_ (two_zpow_pos _).le
    have hle : |x / 2 ^ place x| ≤ (2 ^ j : ℤ) := by
      rw [abs_div, abs_of_pos (two_zpow_pos _), div_le_iff₀ (two_zpow_pos _), ← hpow]
      exact h
    exact_mod_cast abs_halfEven_le hle
  have hlt : (2 : ℚ) ^ k < 2 ^ 1024 := pow_lt_pow_right₀ one_lt_two hk
  refine ⟨_, ?_, hround⟩
  unfold nearest
  dsimp only
  rw [if_pos (hround.trans_lt hlt)]

/-- Cutting off the fraction takes no further place. -/
theorem IsDouble.trunc {x : ℚ} (h : IsDouble x) : IsDouble (trunc x) := by
  obtain ⟨m, e, hm, hlow, hhigh, rfl⟩ := h
  by_cases he : 0 ≤ e
  · obtain ⟨k, rfl⟩ := Int.eq_ofNat_of_zero_le he
    have hint : (m : ℚ) * 2 ^ (k : ℤ) = ((m * 2 ^ k : ℤ) : ℚ) := by
      rw [zpow_natCast]
      push_cast
      rfl
    refine ⟨m, k, hm, hlow, hhigh, ?_⟩
    rw [hint, trunc_intCast]
  · refine isDouble_intCast_of_lt ?_
    have hle : |(m : ℚ) * 2 ^ e| ≤ |(m : ℚ)| := by
      rw [abs_mul, abs_of_pos (two_zpow_pos e)]
      refine mul_le_of_le_one_right (abs_nonneg _) ?_
      exact zpow_le_one_of_nonpos₀ one_le_two (not_le.mp he).le
    have hcast : ((|Binary64.trunc (m * 2 ^ e)| : ℤ) : ℚ) ≤ ((|m| : ℤ) : ℚ) := by
      rw [Int.cast_abs (a := m)]
      exact (abs_trunc_le _).trans hle
    exact (Int.cast_le.mp hcast).trans_lt hm

/-- An odd factor of an integer of the format is short. -/
theorem odd_lt_of_isDouble {w : ℤ} {o : ℕ} (h : IsDouble w) (ho : Odd o) (hdvd : (o : ℤ) ∣ w)
    (hw : w ≠ 0) : o < 2 ^ 53 := by
  obtain ⟨m, e, hm, -, -, hwe⟩ := h
  obtain ⟨i, j, hij⟩ : ∃ i j : ℕ, w * 2 ^ i = m * 2 ^ j := by
    obtain ⟨k, rfl | rfl⟩ := Int.eq_nat_or_neg e
    · refine ⟨0, k, Int.cast_injective (α := ℚ) ?_⟩
      push_cast
      rw [hwe, zpow_natCast, mul_one]
    · refine ⟨k, 0, Int.cast_injective (α := ℚ) ?_⟩
      push_cast
      rw [hwe, zpow_neg, zpow_natCast, mul_one, inv_mul_cancel_right₀ (by positivity)]
  have hm0 : m ≠ 0 := by
    rintro rfl
    rw [zero_mul] at hij
    exact mul_ne_zero hw (by positivity) hij
  have hom : (o : ℤ) ∣ m * 2 ^ j := hij ▸ hdvd.mul_right _
  have hnat : o ∣ m.natAbs * 2 ^ j := by
    have := Int.natCast_dvd.mp hom
    rwa [Int.natAbs_mul, Int.natAbs_pow] at this
  have hle := Nat.le_of_dvd (Int.natAbs_pos.mpr hm0)
    (Nat.Coprime.dvd_of_dvd_mul_right (ho.coprime_two_right.pow_right j) hnat)
  rw [Int.abs_eq_natAbs] at hm
  omega

theorem isDouble_mul_two_pow {m : ℤ} {k : ℕ} (hm : |m| < 2 ^ 53)
    (h : |((m * 2 ^ k : ℤ) : ℚ)| < 2 ^ 1024) : IsDouble ((m * 2 ^ k : ℤ)) := by
  by_cases hk : k ≤ 971
  · refine ⟨m, k, hm, by omega, by omega, ?_⟩
    rw [zpow_natCast]
    push_cast
    rfl
  · obtain ⟨j, rfl⟩ := Nat.exists_eq_add_of_lt (not_le.mp hk)
    have hlt : |(m : ℚ) * 2 ^ (j + 1)| * 2 ^ 971 < 2 ^ 53 * 2 ^ 971 := by
      have hpow : (0 : ℚ) < 2 ^ 971 := by positivity
      rw [← pow_add, ← abs_of_pos hpow, ← abs_mul, mul_assoc, ← pow_add, add_comm (j + 1),
        ← add_assoc]
      push_cast at h
      exact h
    refine ⟨m * 2 ^ (j + 1), 971, ?_, by norm_num, le_rfl, ?_⟩
    · have := lt_of_mul_lt_mul_right hlt (by positivity)
      exact_mod_cast this
    · rw [zpow_ofNat, add_assoc, add_comm 971, pow_add, ← mul_assoc, Int.cast_mul _ (2 ^ 971),
        Int.cast_pow, Int.cast_ofNat]

/-- A factor of an integer of the format is one. -/
theorem isDouble_of_dvd {z w : ℤ} (h : IsDouble w) (hdvd : z ∣ w) (hw : w ≠ 0) :
    IsDouble z := by
  have hz : z ≠ 0 := ne_zero_of_dvd_ne_zero hw hdvd
  obtain ⟨k, o, hodd, habs⟩ := Nat.exists_eq_two_pow_mul_odd (Int.natAbs_ne_zero.mpr hz)
  have heq : z = z.sign * o * 2 ^ k := by
    rw [mul_assoc, mul_comm (o : ℤ)]
    calc z = z.sign * z.natAbs := (Int.sign_mul_natAbs z).symm
      _ = z.sign * (2 ^ k * o) := by rw [habs]; push_cast; rfl
  have ho : o < 2 ^ 53 := by
    refine odd_lt_of_isDouble h hodd (dvd_trans ?_ hdvd) hw
    rw [heq]
    exact Dvd.intro_left _ (by ring : z.sign * 2 ^ k * (o : ℤ) = z.sign * o * 2 ^ k)
  have hle : |z| ≤ |w| := by
    rw [Int.abs_eq_natAbs, Int.abs_eq_natAbs]
    exact_mod_cast Nat.le_of_dvd (Int.natAbs_pos.mpr hw) (Int.natAbs_dvd_natAbs.mpr hdvd)
  have hbound : |(z : ℚ)| < 2 ^ 1024 := by
    refine lt_of_le_of_lt ?_ h.abs_lt
    exact_mod_cast hle
  rw [heq] at hbound ⊢
  refine isDouble_mul_two_pow ?_ hbound
  rw [abs_mul, Int.abs_eq_natAbs z.sign, Int.natAbs_sign_of_ne_zero hz, Nat.abs_cast]
  omega

namespace Value

theorem ofRat_of_isDouble {x : ℚ} (h : IsDouble x) : ofRat x = .finite x := by
  rw [ofRat, nearest_of_isDouble h]

theorem isDouble_of_ofRat {x y : ℚ} (h : ofRat x = .finite y) : IsDouble y := by
  unfold ofRat at h
  split at h
  · rename_i hy
    obtain rfl := Value.finite.inj h
    exact isDouble_of_nearest hy
  · cases h

theorem ofRat_ne_nan (x : ℚ) : ofRat x ≠ .nan := by
  unfold ofRat
  split
  · exact fun h => by cases h
  · exact fun h => by cases h

theorem times_ne_nan {v : Value} (h : v ≠ .nan) (c : ℚ) : v.times c ≠ .nan := by
  cases v with
  | finite x => exact ofRat_ne_nan _
  | inf => exact h
  | nan => exact h

theorem dividedBy_ne_nan {v : Value} (h : v ≠ .nan) (c : ℚ) : v.dividedBy c ≠ .nan := by
  cases v with
  | finite x => exact ofRat_ne_nan _
  | inf => exact h
  | nan => exact h

/-- `v` comes out of a computation whose exact result is `n`. -/
structure Computes (v : Value) (n : ℤ) : Prop where
  isDouble : ∀ x, v = .finite x → IsDouble x
  exact : IsDouble n → v = .finite n

theorem computes_ofRat (n : ℤ) : (ofRat n).Computes n where
  isDouble _ h := isDouble_of_ofRat h
  exact := ofRat_of_isDouble

theorem Computes.times {v : Value} {n : ℤ} (h : v.Computes n) {c : ℤ} (hc : c ≠ 0) :
    (v.times c).Computes (n * c) where
  isDouble y hy := by
    cases v with
    | finite x => exact isDouble_of_ofRat hy
    | inf => cases hy
    | nan => cases hy
  exact hdouble := by
    have hn : IsDouble n := by
      by_cases hn : n = 0
      · rw [hn]
        exact isDouble_intCast_of_lt (by norm_num)
      · exact isDouble_of_dvd hdouble (Dvd.intro _ rfl) (mul_ne_zero hn hc)
    rw [h.exact hn]
    change ofRat (n * c) = _
    rw [← Int.cast_mul]
    exact ofRat_of_isDouble hdouble

/-- The exact result is found just when it is a number of the format. -/
theorem Computes.truncatesTo_iff {v : Value} {n : ℤ} (h : v.Computes n) :
    v.TruncatesTo n ↔ IsDouble n := by
  constructor
  · rintro ⟨x, hx, rfl⟩
    exact (h.isDouble x hx).trunc
  · exact fun hn => ⟨n, h.exact hn, trunc_intCast n⟩

end Value

end Eyot.Binary64
