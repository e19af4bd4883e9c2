import Mathlib.Algebra.Order.Field.Power
import Mathlib.Algebra.Order.Field.Rat
import Mathlib.Algebra.Order.Floor.Ring
import Mathlib.Data.Int.Log
import Mathlib.Data.Rat.Floor
import Mathlib.Tactic.Linarith
import Mathlib.Tactic.Positivity
import Mathlib.Tactic.Ring
import Mathlib.Tactic.NormNum

/-!
# Doubles

The finite doubles are the multiples of the place of their last bit (`place`) below `limit`, with a sign;
a rational number is rounded to the nearest of them, and to the even one of two (`nearest`). Rounding is
monotone at the doubles themselves (`nearest_le`, `le_nearest`).

`Binary64.floorDiv` is Python's `//` of doubles, with its roundings. When it vanishes and when it is finite
is read off the exact quotient: `floorDiv_eq_zero_iff`, `isFinite_floorDiv_iff`.
-/

namespace Persona.Lib

/-! ### Rounding -/

/-- The exponent of the last bit of a double of this size. -/
def place (a : ℚ) : ℤ := max (Int.log 2 a - 52) (-1074)

/-- The nearest integer, the even one of two. -/
def halfEven (q : ℚ) : ℤ := if q - ⌊q⌋ < 1 / 2 ∨ (q - ⌊q⌋ = 1 / 2 ∧ ⌊q⌋ % 2 = 0) then ⌊q⌋ else ⌊q⌋ + 1

/-- The nearest number that a double has room for. -/
def nearest (a : ℚ) : ℚ := halfEven (a / 2 ^ place a) * 2 ^ place a

/-- The largest double. -/
def largest : ℚ := (2 ^ 53 - 1 : ℕ) * 2 ^ (971 : ℤ)

/-- Half a bit past it: from here on a number is rounded to an infinity. -/
def limit : ℚ := (2 ^ 54 - 1 : ℕ) * 2 ^ (970 : ℤ)

/-- The number is a multiple of its last bit. -/
def Exact (a : ℚ) : Prop := ∃ n : ℕ, a = n * 2 ^ place a

section

variable {a b q : ℚ} {n : ℤ}

theorem halfEven_le (h : q ≤ n) : halfEven q ≤ n := by
  have hfloor : ⌊q⌋ ≤ n := Int.cast_le.mp ((Int.floor_le q).trans h)
  unfold halfEven
  split_ifs with hdown
  · exact hfloor
  · rcases hfloor.eq_or_lt with heq | hlt
    · have hq : q = ⌊q⌋ := le_antisymm (by rwa [heq]) (Int.floor_le q)
      refine absurd (.inl ?_) hdown
      rw [← hq, sub_self]
      norm_num
    · omega

theorem le_halfEven (h : n ≤ q) : n ≤ halfEven q := by
  have hfloor : n ≤ ⌊q⌋ := Int.le_floor.mpr h
  unfold halfEven
  split_ifs
  · exact hfloor
  · omega

theorem halfEven_intCast (n : ℤ) : halfEven n = n := le_antisymm (halfEven_le le_rfl) (le_halfEven le_rfl)

/-- What is less than a half away is rounded to the integer. -/
theorem halfEven_eq (h : |q - n| < 1 / 2) : halfEven q = n := by
  obtain ⟨hlow, hhigh⟩ := abs_lt.mp h
  have hfrac := Int.floor_le q
  have hnext := Int.lt_floor_add_one q
  unfold halfEven
  by_cases hdown : ⌊q⌋ = n
  · rw [if_pos (.inl (by rw [hdown]; linarith)), hdown]
  · have hup : ⌊q⌋ = n - 1 := by
      have h1 : (⌊q⌋ : ℚ) < (n : ℚ) + 1 := by linarith
      have h2 : (n : ℚ) - 2 < (⌊q⌋ : ℚ) := by linarith
      have h3 : ⌊q⌋ < n + 1 := by exact_mod_cast h1
      have h4 : n - 2 < ⌊q⌋ := by exact_mod_cast h2
      omega
    rw [if_neg, hup]
    · omega
    · rw [hup, Int.cast_sub, Int.cast_one]
      rintro (hless | ⟨heq, -⟩) <;> linarith

theorem two_zpow_pos (k : ℤ) : (0 : ℚ) < 2 ^ k := by positivity

theorem place_mono (ha : 0 < a) (h : a ≤ b) : place a ≤ place b := by
  have hlog := Int.log_mono_right (b := 2) ha h
  unfold place
  omega

/-- A number has at most 53 bits before its last place. -/
theorem lt_two_zpow_place (a : ℚ) : a < 2 ^ 53 * 2 ^ place a := by
  have hlog : a < (2 : ℕ) ^ (Int.log 2 a + 1) := Int.lt_zpow_succ_log_self (by decide) a
  have hpow : (2 : ℚ) ^ (Int.log 2 a + 1) ≤ 2 ^ (53 + place a) :=
    zpow_le_zpow_right₀ (by norm_num) (by unfold place; omega)
  have hsplit : (2 : ℚ) ^ (53 + place a) = 2 ^ 53 * 2 ^ place a := zpow_add₀ (by norm_num) _ _
  rw [← hsplit]
  exact (by exact_mod_cast hlog : a < (2 : ℚ) ^ (Int.log 2 a + 1)).trans_le hpow

/-- The integers of 53 bits, at any place from the last on, are exact. -/
theorem exact_of_lt {m : ℕ} {k : ℤ} (hm : m < 2 ^ 53) (hk : -1074 ≤ k) : Exact (m * 2 ^ k) := by
  rcases Nat.eq_zero_or_pos m with rfl | hpos
  · exact ⟨0, by simp⟩
  have hnum : (0 : ℚ) < m * 2 ^ k := mul_pos (by exact_mod_cast hpos) (two_zpow_pos k)
  have hlow : (2 : ℚ) ^ Int.log 2 ((m : ℚ) * 2 ^ k) ≤ m * 2 ^ k := by
    simpa using Int.zpow_log_le_self (b := 2) (by decide) hnum
  have hhigh : (m : ℚ) * 2 ^ k < 2 ^ (53 + k) := by
    rw [zpow_add₀ (by norm_num)]
    have hm' : (m : ℚ) < 2 ^ (53 : ℤ) := by exact_mod_cast hm
    exact mul_lt_mul_of_pos_right hm' (two_zpow_pos k)
  have hlog : Int.log 2 ((m : ℚ) * 2 ^ k) < 53 + k :=
    (zpow_lt_zpow_iff_right₀ (by norm_num : (1 : ℚ) < 2)).mp (hlow.trans_lt hhigh)
  obtain ⟨d, hd⟩ : ∃ d : ℕ, k = place ((m : ℚ) * 2 ^ k) + d := ⟨(k - place ((m : ℚ) * 2 ^ k)).toNat, by unfold place; omega⟩
  refine ⟨m * 2 ^ d, ?_⟩
  have hsplit : (2 : ℚ) ^ k = 2 ^ d * 2 ^ place ((m : ℚ) * 2 ^ k) := by
    conv_lhs => rw [hd]
    rw [zpow_add₀ (by norm_num), zpow_natCast, mul_comm]
  push_cast
  conv_lhs => rw [hsplit]
  ring

/-- An exact number is a multiple of any smaller place. -/
theorem Exact.multiple (h : Exact b) {k : ℤ} (hk : k ≤ place b) : ∃ n : ℕ, b / 2 ^ k = n := by
  obtain ⟨n, hn⟩ := h
  obtain ⟨d, hd⟩ : ∃ d : ℕ, place b = k + d := ⟨(place b - k).toNat, by omega⟩
  refine ⟨n * 2 ^ d, ?_⟩
  rw [div_eq_iff (two_zpow_pos k).ne']
  conv_lhs => rw [hn, hd]
  rw [zpow_add₀ (by norm_num), zpow_natCast]
  push_cast
  ring

theorem nearest_zero : nearest 0 = 0 := by
  rw [nearest, zero_div]
  have hzero := halfEven_intCast 0
  rw [Int.cast_zero] at hzero
  rw [hzero]
  simp

theorem nearest_nonneg (ha : 0 ≤ a) : 0 ≤ nearest a := by
  have hdiv : ((0 : ℤ) : ℚ) ≤ a / 2 ^ place a := by
    rw [Int.cast_zero]
    exact div_nonneg ha (two_zpow_pos _).le
  have hint : (0 : ℚ) ≤ halfEven (a / 2 ^ place a) := by exact_mod_cast le_halfEven hdiv
  exact mul_nonneg hint (two_zpow_pos _).le

/-- Rounding does not go past a double above the number, -/
theorem nearest_le (ha : 0 ≤ a) (hb : Exact b) (h : a ≤ b) : nearest a ≤ b := by
  rcases ha.eq_or_lt with rfl | hpos
  · rwa [nearest_zero]
  obtain ⟨n, hn⟩ := hb.multiple (place_mono hpos h)
  have hint : a / 2 ^ place a ≤ (n : ℤ) := by
    rw [Int.cast_natCast, ← hn]
    exact div_le_div_of_nonneg_right h (two_zpow_pos _).le
  have hround : (halfEven (a / 2 ^ place a) : ℚ) ≤ n := by exact_mod_cast halfEven_le hint
  rw [nearest, ← div_mul_cancel₀ b (two_zpow_pos (place a)).ne', hn]
  exact mul_le_mul_of_nonneg_right hround (two_zpow_pos _).le

/-- nor past one below it. -/
theorem le_nearest (hpos : 0 < b) (hb : Exact b) (h : b ≤ a) : b ≤ nearest a := by
  have hmono := place_mono hpos h
  rcases hmono.eq_or_lt with heq | hlt
  · obtain ⟨n, hn⟩ := hb.multiple heq.ge
    have hint : ((n : ℤ) : ℚ) ≤ a / 2 ^ place a := by
      rw [Int.cast_natCast, ← hn]
      exact div_le_div_of_nonneg_right h (two_zpow_pos _).le
    have hround : (n : ℚ) ≤ halfEven (a / 2 ^ place a) := by exact_mod_cast le_halfEven hint
    rw [nearest, ← div_mul_cancel₀ b (two_zpow_pos (place a)).ne', hn]
    exact mul_le_mul_of_nonneg_right hround (two_zpow_pos _).le
  · -- the number has more bits, and the power of two below it lies between
    have hplace : place a = Int.log 2 a - 52 := by unfold place at hlt ⊢; omega
    have hbits : Int.log 2 b + 1 ≤ Int.log 2 a := by unfold place at hlt; omega
    have hbelow : b < 2 ^ (Int.log 2 b + 1) := by simpa using Int.lt_zpow_succ_log_self (b := 2) (by decide) b
    have hpower : (2 : ℚ) ^ (Int.log 2 b + 1) ≤ 2 ^ Int.log 2 a := zpow_le_zpow_right₀ (by norm_num) hbits
    have hlow : (2 : ℚ) ^ Int.log 2 a ≤ a := by simpa using Int.zpow_log_le_self (b := 2) (by decide) (hpos.trans_le h)
    have hsplit : (2 : ℚ) ^ Int.log 2 a = 2 ^ 52 * 2 ^ place a := by
      rw [hplace, ← zpow_natCast, ← zpow_add₀ (by norm_num)]
      congr 1
      push_cast
      ring
    have hint : (((2 : ℤ) ^ 52 : ℤ) : ℚ) ≤ a / 2 ^ place a := by
      rw [le_div_iff₀ (two_zpow_pos _), Int.cast_pow, Int.cast_ofNat, ← hsplit]
      exact hlow
    have hround : ((2 : ℚ) ^ 52) ≤ halfEven (a / 2 ^ place a) := by exact_mod_cast le_halfEven hint
    have hnearest : 2 ^ Int.log 2 a ≤ nearest a := by
      rw [nearest, hsplit]
      exact mul_le_mul_of_nonneg_right hround (two_zpow_pos _).le
    linarith

/-- What is rounded is exact. -/
theorem exact_nearest (ha : 0 ≤ a) : Exact (nearest a) := by
  have hsmall : a / 2 ^ place a ≤ ((2 ^ 53 : ℤ) : ℚ) := by
    rw [div_le_iff₀ (two_zpow_pos _)]
    push_cast
    exact (lt_two_zpow_place a).le
  have hnonneg : ((0 : ℤ) : ℚ) ≤ a / 2 ^ place a := by
    rw [Int.cast_zero]
    exact div_nonneg ha (two_zpow_pos _).le
  have hlow := le_halfEven hnonneg
  have hhigh := halfEven_le hsmall
  obtain ⟨m, hm⟩ := Int.eq_ofNat_of_zero_le hlow
  have hplace : -1074 ≤ place a := by unfold place; omega
  rw [nearest, hm]
  rw [hm] at hhigh
  rcases hhigh.eq_or_lt with heq | hlt
  · have hpower : ((m : ℤ) : ℚ) * 2 ^ place a = (1 : ℕ) * 2 ^ (53 + place a) := by
      rw [heq, zpow_add₀ (by norm_num)]
      norm_num
    rw [hpower]
    exact exact_of_lt (by decide) (by omega)
  · have hcast : ((m : ℤ) : ℚ) = (m : ℕ) := by push_cast; rfl
    rw [hcast]
    exact exact_of_lt (by exact_mod_cast hlt) hplace

theorem two_zpow_succ (k : ℤ) : (2 : ℚ) ^ (k + 1) = 2 * 2 ^ k := by rw [zpow_add_one₀ (by norm_num), mul_comm]

theorem exact_largest : Exact largest := exact_of_lt (by decide) (by decide)

theorem limit_eq : limit = largest + 2 ^ (970 : ℤ) := by
  have hstep : (2 : ℚ) ^ (971 : ℤ) = 2 * 2 ^ (970 : ℤ) := two_zpow_succ 970
  rw [limit, largest, hstep]
  generalize (2 : ℚ) ^ (970 : ℤ) = x
  push_cast
  ring

/-- Below the limit a number is rounded to a double. -/
theorem nearest_le_largest (ha : 0 ≤ a) (h : a < limit) : nearest a ≤ largest := by
  rcases le_or_gt a largest with hle | hgt
  · exact nearest_le ha exact_largest hle
  · have hbits : ∀ k : ℤ, (2 : ℚ) ^ (k + 52) = 2 ^ 52 * 2 ^ k := fun k => by
      rw [zpow_add₀ (by norm_num), mul_comm]
      rfl
    have hlarge : (2 : ℚ) ^ (1023 : ℤ) ≤ largest := by
      have hsplit : (2 : ℚ) ^ (1023 : ℤ) = 2 ^ 52 * 2 ^ (971 : ℤ) := hbits 971
      rw [hsplit, largest]
      refine mul_le_mul_of_nonneg_right ?_ (two_zpow_pos _).le
      norm_num
    have hpos : 0 < a := (two_zpow_pos 1023).trans_le (hlarge.trans hgt.le)
    have hlow : 1023 ≤ Int.log 2 a := by
      rw [← Int.zpow_le_iff_le_log (by decide) hpos]
      exact hlarge.trans hgt.le
    have hhigh : Int.log 2 a < 1024 := by
      rw [← Int.lt_zpow_iff_log_lt (by decide) hpos]
      refine h.trans_le ?_
      have hsplit : (2 : ℚ) ^ (1024 : ℤ) = 2 ^ 52 * (2 * (2 * 2 ^ (970 : ℤ))) := by
        rw [← two_zpow_succ, ← two_zpow_succ]
        exact hbits 972
      show limit ≤ (2 : ℚ) ^ (1024 : ℤ)
      have hpower := two_zpow_pos 970
      rw [hsplit, limit]
      generalize (2 : ℚ) ^ (970 : ℤ) = x at hpower
      have hnum : ((2 ^ 54 - 1 : ℕ) : ℚ) ≤ 2 ^ 52 * 4 := by norm_num
      calc ((2 ^ 54 - 1 : ℕ) : ℚ) * x ≤ 2 ^ 52 * 4 * x := mul_le_mul_of_nonneg_right hnum hpower.le
        _ = 2 ^ 52 * (2 * (2 * x)) := by ring
    have hplace : place a = 971 := by unfold place; omega
    have hround : halfEven (a / 2 ^ (971 : ℤ)) = (2 ^ 53 - 1 : ℕ) := by
      refine halfEven_eq (n := ((2 ^ 53 - 1 : ℕ) : ℤ)) ?_
      have hover : a / 2 ^ (971 : ℤ) - (2 ^ 53 - 1 : ℕ) = (a - largest) / 2 ^ (971 : ℤ) := by
        rw [largest, sub_div, mul_div_cancel_right₀ _ (two_zpow_pos 971).ne']
      rw [Int.cast_natCast, hover, abs_of_pos (div_pos (by linarith) (two_zpow_pos _)), div_lt_iff₀ (two_zpow_pos _)]
      rw [limit_eq] at h
      have hhalf : (2 : ℚ) ^ (971 : ℤ) = 2 * 2 ^ (970 : ℤ) := two_zpow_succ 970
      rw [hhalf]
      linarith
    rw [nearest, hplace, hround, largest, Int.cast_natCast]

end

/-! ### Doubles -/

/-- A finite double: its sign and its size. There are two zeros. -/
structure Double where
  negative : Bool
  abs : ℚ
  nonneg : 0 ≤ abs
  exact : Exact abs
  le : abs ≤ largest
  deriving DecidableEq

/-- The number. -/
def Double.value (d : Double) : ℚ := if d.negative then -d.abs else d.abs

/-- A double of 64 bits. -/
inductive Binary64 where
  | nan
  | inf (negative : Bool)
  | num (d : Double)
  deriving DecidableEq

/-- A double with these bits, the last at this place. -/
def Double.ofParts (negative : Bool) (m : ℕ) (k : ℤ) (hm : m < 2 ^ 53) (hk : -1074 ≤ k) (hle : k ≤ 971) : Double where
  negative := negative
  abs := m * 2 ^ k
  nonneg := mul_nonneg (Nat.cast_nonneg m) (two_zpow_pos k).le
  exact := exact_of_lt hm hk
  le := mul_le_mul (by exact_mod_cast Nat.le_pred_of_lt hm) (zpow_le_zpow_right₀ (by norm_num) hle) (two_zpow_pos k).le
    (Nat.cast_nonneg _)

namespace Binary64

/-- A double whose bits are a sign, an exponent up to `top` and `p` bits of the mantissa; `least` is the place
of the last bit of the smallest ones. -/
def ofFields (p top : ℕ) (least : ℤ) (hp : p ≤ 52) (hleast : -1074 ≤ least) (hneg : least ≤ 0) (htop : least + top ≤ 973)
    (bits : ℕ) : Binary64 :=
  have hpow : 2 ^ p ≤ 2 ^ 52 := Nat.pow_le_pow_right (by decide) hp
  have hm : bits % 2 ^ p < 2 ^ p := Nat.mod_lt _ (by positivity)
  let e := bits / 2 ^ p % (top + 1)
  let negative := decide (bits / 2 ^ p / (top + 1) % 2 = 1)
  if htop' : top ≤ e then if bits % 2 ^ p = 0 then .inf negative else .nan
  else if he : e = 0 then .num (.ofParts negative (bits % 2 ^ p) least (by omega) hleast (by omega))
  else .num (.ofParts negative (2 ^ p + bits % 2 ^ p) (least + e - 1) (by omega) (by omega) (by omega))

/-- The double of 64 bits. -/
def ofDoubleBits : ℕ → Binary64 := ofFields 52 2047 (-1074) (by decide) (by decide) (by decide) (by decide)

/-- The double of the same value as a float of 32 bits. -/
def ofSingleBits : ℕ → Binary64 := ofFields 23 255 (-149) (by decide) (by decide) (by decide) (by decide)

/-- The nearest double. -/
def round (x : ℚ) : Binary64 :=
  if h : |x| < limit then
    .num ⟨decide (x < 0), nearest |x|, nearest_nonneg (abs_nonneg x), exact_nearest (abs_nonneg x),
      nearest_le_largest (abs_nonneg x) h⟩
  else .inf (decide (x < 0))

/-- It is neither an infinity nor NaN. -/
def isFinite : Binary64 → Bool
  | num _ => true
  | _ => false

/-- One of the zeros. -/
def isZero : Binary64 → Bool
  | num d => d.abs = 0
  | _ => false

/-- A computation that goes on with a finite number. -/
def bind (x : Binary64) (f : ℚ → Binary64) : Binary64 :=
  match x with
  | num d => f d.value
  | x => x

end Binary64

/-- The integer, without the fraction. -/
def towardZero (q : ℚ) : ℤ := if q < 0 then ⌈q⌉ else ⌊q⌋

/-- `int(x)` of a finite double. -/
def Double.int (d : Double) : ℤ := towardZero d.value

/-- The quotient `q` is snapped to an integer; a zero has the sign of the operands. -/
def snap (negative : Bool) (q : ℚ) : Binary64 :=
  if q = 0 then .num (.ofParts negative 0 0 (by decide) (by decide) (by decide))
  else if 1 / 2 < nearest (q - ⌊q⌋) then .round (⌊q⌋ + 1) else .round ⌊q⌋

/-- `x // y` of finite doubles, where `y` is not zero. -/
def Double.floorDiv (x y : Double) : Binary64 :=
  -- `fmod(x, y)`, which is exact
  let mod := x.value - towardZero (x.value / y.value) * y.value
  let div := (Binary64.round (x.value - mod)).bind fun a => .round (a / y.value)
  let div := if mod ≠ 0 ∧ decide (y.value < 0) ≠ decide (mod < 0) then div.bind fun q => .round (q - 1) else div
  div.bind (snap (x.negative != y.negative))

/-- `x // y`, where `y` is not zero. -/
def Binary64.floorDiv : Binary64 → Binary64 → Binary64
  | num x, num y => x.floorDiv y
  | num x, inf negative =>
    if x.abs ≠ 0 ∧ negative ≠ x.negative then .round (-1)
    else .num (.ofParts (x.negative != negative) 0 0 (by decide) (by decide) (by decide))
  | _, _ => nan

/-! ### When a quotient is finite, and when it is zero -/

section

variable {x y : Double} {q : ℚ} {s : Bool}

theorem Double.abs_value (d : Double) : |d.value| = d.abs := by
  unfold value
  split_ifs
  · rw [abs_neg, abs_of_nonneg d.nonneg]
  · exact abs_of_nonneg d.nonneg

theorem exact_unit : Exact 1 := by
  have h := exact_of_lt (m := 1) (k := 0) (by decide) (by decide)
  simpa using h

theorem one_lt_limit_sub : largest + 1 < limit := by
  have hpower : (2 : ℚ) ^ (0 : ℤ) < 2 ^ (970 : ℤ) := zpow_lt_zpow_right₀ (by norm_num) (by decide)
  rw [zpow_zero] at hpower
  rw [limit_eq]
  exact (add_lt_add_iff_left largest).mpr hpower

/-- Rounding keeps the sign, and stays outside of a unit. -/
theorem Binary64.round_of_lt (h : |q| < limit) : ∃ d, round q = num d ∧ d.abs = nearest |q| ∧
    (0 ≤ q → d.value = nearest |q|) ∧ (q < 0 → d.value = -nearest |q|) := by
  refine ⟨_, dif_pos h, rfl, fun hq => ?_, fun hq => ?_⟩
  · rw [Double.value]
    dsimp only
    rw [decide_eq_false (not_lt.mpr hq)]
    rfl
  · rw [Double.value]
    dsimp only
    rw [decide_eq_true hq]
    rfl

theorem Binary64.isFinite_round_iff : (round q).isFinite = true ↔ |q| < limit := by
  unfold round
  split_ifs with h
  · exact iff_of_true rfl h
  · exact iff_of_false (by simp [isFinite]) h

theorem Binary64.round_of_le (h : limit ≤ |q|) : round q = inf (decide (q < 0)) := dif_neg (not_lt.mpr h)

theorem isFinite_snap (h : |q| ≤ largest) : (snap s q).isFinite = true := by
  obtain ⟨hlow, hhigh⟩ := abs_le.mp h
  have hfloor := Int.floor_le q
  have hnext := Int.lt_floor_add_one q
  have hlimit := one_lt_limit_sub
  unfold snap
  split_ifs
  · rfl
  · rw [Binary64.isFinite_round_iff, abs_lt]
    constructor <;> linarith
  · rw [Binary64.isFinite_round_iff, abs_lt]
    constructor <;> linarith

/-- A number that is no less than one is not rounded to less. -/
theorem one_le_nearest (h : 1 ≤ q) : 1 ≤ nearest q := le_nearest one_pos exact_unit h

theorem Binary64.isZero_round_intCast {n : ℤ} (hn : n ≠ 0) : (round n).isZero = false := by
  by_cases h : |(n : ℚ)| < limit
  · obtain ⟨d, hd, habs, -⟩ := round_of_lt h
    have hone : (1 : ℚ) ≤ |(n : ℚ)| := by exact_mod_cast Int.one_le_abs hn
    have hnearest := one_le_nearest hone
    rw [hd, isZero, decide_eq_false_iff_not, habs]
    linarith
  · rw [round_of_le (not_lt.mp h)]
    rfl

/-- What is outside of a unit is not snapped to zero. -/
theorem isZero_snap (h : q ≤ -1 ∨ 1 ≤ q) : (snap s q).isZero = false := by
  have hfloor := Int.floor_le q
  have hq : q ≠ 0 := by
    rintro rfl
    rcases h with h | h <;> norm_num at h
  unfold snap
  rw [if_neg hq]
  rcases h with hlow | hhigh
  · have hle : ⌊q⌋ ≤ -1 := by
      have hcast : (⌊q⌋ : ℚ) ≤ ((-1 : ℤ) : ℚ) := by
        push_cast
        linarith
      exact Int.cast_le.mp hcast
    split_ifs with hup
    · -- only the unit itself has the floor minus one, and it is not moved
      have hne : ⌊q⌋ + 1 ≠ 0 := by
        intro hzero
        have hminus : ⌊q⌋ = -1 := by omega
        have hunit : q = -1 := by
          rw [hminus] at hfloor
          push_cast at hfloor
          linarith
        rw [hminus, hunit, Int.cast_neg, Int.cast_one, sub_self, nearest_zero] at hup
        norm_num at hup
      have hcast : ((⌊q⌋ : ℤ) : ℚ) + 1 = ((⌊q⌋ + 1 : ℤ) : ℚ) := by push_cast; rfl
      rw [hcast]
      exact Binary64.isZero_round_intCast hne
    · exact Binary64.isZero_round_intCast (by omega)
  · have hle : 1 ≤ ⌊q⌋ := Int.le_floor.mpr (by exact_mod_cast hhigh)
    split_ifs
    · have hcast : ((⌊q⌋ : ℤ) : ℚ) + 1 = ((⌊q⌋ + 1 : ℤ) : ℚ) := by push_cast; rfl
      rw [hcast]
      exact Binary64.isZero_round_intCast (by omega)
    · exact Binary64.isZero_round_intCast (by omega)

theorem abs_towardZero_le (q : ℚ) : |(towardZero q : ℚ)| ≤ |q| := by
  unfold towardZero
  split_ifs with h
  · have hceil : ⌈q⌉ ≤ 0 := Int.ceil_le.mpr (by exact_mod_cast h.le)
    have hcast : ((⌈q⌉ : ℤ) : ℚ) ≤ 0 := by exact_mod_cast hceil
    rw [abs_of_nonpos hcast, abs_of_neg h]
    have := Int.le_ceil q
    linarith
  · have hfloor : 0 ≤ ⌊q⌋ := Int.floor_nonneg.mpr (not_lt.mp h)
    have hcast : (0 : ℚ) ≤ ((⌊q⌋ : ℤ) : ℚ) := by exact_mod_cast hfloor
    rw [abs_of_nonneg hcast, abs_of_nonneg (not_lt.mp h)]
    exact Int.floor_le q

theorem abs_sub_towardZero_lt (q : ℚ) : |q - towardZero q| < 1 := by
  unfold towardZero
  split_ifs
  · have h1 := Int.le_ceil q
    have h2 := Int.ceil_lt_add_one q
    rw [abs_lt]
    constructor <;> linarith
  · have h1 := Int.floor_le q
    have h2 := Int.lt_floor_add_one q
    rw [abs_lt]
    constructor <;> linarith

/-- A double just above the number is the nearest one. -/
theorem nearest_eq {a b : ℚ} (ha : 0 < a) (hb : Exact b) (h : a ≤ b) (hclose : 2 ^ 54 * (b - a) < a) : nearest a = b := by
  obtain ⟨n, hn⟩ := hb.multiple (place_mono ha h)
  have hbits := lt_two_zpow_place a
  have hpower := two_zpow_pos (place a)
  have hround : halfEven (a / 2 ^ place a) = n := by
    refine halfEven_eq (n := (n : ℤ)) ?_
    rw [Int.cast_natCast, ← hn, ← sub_div, abs_of_nonpos (div_nonpos_of_nonpos_of_nonneg (by linarith) hpower.le), ← neg_div,
      div_lt_iff₀ hpower]
    linarith
  rw [nearest, hround, Int.cast_natCast, ← hn, div_mul_cancel₀ _ hpower.ne']

/-- The multiple of `y` that `fmod` leaves is no larger than `x`, and nearer to it than `y`. -/
theorem abs_multiple_le (hy : y.value ≠ 0) : |towardZero (x.value / y.value) * y.value| ≤ x.abs := by
  have hle := abs_towardZero_le (x.value / y.value)
  rw [abs_mul, ← x.abs_value]
  calc |(towardZero (x.value / y.value) : ℚ)| * |y.value| ≤ |x.value / y.value| * |y.value| :=
        mul_le_mul_of_nonneg_right hle (abs_nonneg _)
    _ = |x.value| := by rw [← abs_mul, div_mul_cancel₀ _ hy]

theorem limit_large : (2 : ℚ) ^ 54 + 1 ≤ limit := by
  have hpower : (2 : ℚ) ^ (1 : ℤ) ≤ 2 ^ (970 : ℤ) := zpow_le_zpow_right₀ (by norm_num) (by decide)
  rw [limit]
  generalize (2 : ℚ) ^ (970 : ℤ) = p at hpower
  rw [zpow_one] at hpower
  calc (2 : ℚ) ^ 54 + 1 ≤ (2 ^ 54 - 1 : ℕ) * 2 := by norm_num
    _ ≤ (2 ^ 54 - 1 : ℕ) * p := mul_le_mul_of_nonneg_left hpower (Nat.cast_nonneg _)

/-- Where the quotient is past the limit, the multiple is rounded to `x` itself. -/
theorem nearest_multiple (hy : y.value ≠ 0) (h : limit ≤ |x.value / y.value|) :
    nearest |towardZero (x.value / y.value) * y.value| = x.abs := by
  have hpos : 0 < |y.value| := abs_pos.mpr hy
  have hlarge := limit_large
  have hclose := abs_sub_towardZero_lt (x.value / y.value)
  have hle := abs_multiple_le (x := x) hy
  have hsize : x.abs = |x.value / y.value| * |y.value| := by rw [← abs_mul, div_mul_cancel₀ _ hy, x.abs_value]
  have hinteger : |x.value / y.value| - 1 < |(towardZero (x.value / y.value) : ℚ)| := by
    have := abs_sub_abs_le_abs_sub (x.value / y.value) (towardZero (x.value / y.value))
    linarith
  rw [abs_mul] at hle ⊢
  generalize |(towardZero (x.value / y.value) : ℚ)| = t at hle hinteger ⊢
  generalize |x.value / y.value| = q at h hinteger hsize
  have ht : (2 : ℚ) ^ 54 < t := by linarith
  have hgap : x.abs - t * |y.value| < |y.value| := by
    rw [hsize, ← sub_mul]
    calc (q - t) * |y.value| < 1 * |y.value| := mul_lt_mul_of_pos_right (by linarith) hpos
      _ = |y.value| := one_mul _
  refine nearest_eq (mul_pos (lt_trans (by positivity) ht) hpos) x.exact hle ?_
  calc (2 : ℚ) ^ 54 * (x.abs - t * |y.value|) < 2 ^ 54 * |y.value| := mul_lt_mul_of_pos_left hgap (by positivity)
    _ < t * |y.value| := mul_lt_mul_of_pos_right ht hpos

/-- What the division gives before it is corrected, when the quotient is below the limit. -/
theorem quotient_of_lt (hy : y.value ≠ 0) (h : |x.value / y.value| < limit) :
    ∃ a, (Binary64.round (towardZero (x.value / y.value) * y.value)) = .num a ∧
      a.abs = nearest |towardZero (x.value / y.value) * y.value| ∧ |a.value / y.value| < limit := by
  have hle := abs_multiple_le (x := x) hy
  have hlimit : largest < limit := by
    have := one_lt_limit_sub
    linarith
  obtain ⟨a, hround, habs, -⟩ := Binary64.round_of_lt ((hle.trans x.le).trans_lt hlimit)
  refine ⟨a, hround, habs, lt_of_le_of_lt ?_ h⟩
  rw [abs_div, abs_div, a.abs_value, x.abs_value, habs]
  exact div_le_div_of_nonneg_right (nearest_le (abs_nonneg _) x.exact hle) (abs_nonneg _)

/-- **A quotient is finite** exactly below the limit. -/
theorem Double.isFinite_floorDiv_iff (hy : y.value ≠ 0) : (x.floorDiv y).isFinite = true ↔ |x.value / y.value| < limit := by
  have hmod : x.value - (x.value - towardZero (x.value / y.value) * y.value) = towardZero (x.value / y.value) * y.value := by
    ring
  by_cases h : |x.value / y.value| < limit
  · refine iff_of_true ?_ h
    obtain ⟨a, ha, -, hquotient⟩ := quotient_of_lt hy h
    obtain ⟨d, hd, -⟩ := Binary64.round_of_lt hquotient
    have hpair : ∀ s, (Binary64.bind (.num d) (snap s)).isFinite = true := fun s =>
      isFinite_snap (by rw [d.abs_value]; exact d.le)
    have hdown : ∀ s, ((Binary64.bind (.num d) fun q => .round (q - 1)).bind (snap s)).isFinite = true := by
      intro s
      have hless : |d.value - 1| < limit := by
        have hd' := abs_le.mp (d.abs_value.le.trans d.le)
        have hlimit := one_lt_limit_sub
        rw [abs_lt]
        constructor <;> linarith
      obtain ⟨e, he, -⟩ := Binary64.round_of_lt hless
      show ((Binary64.round (d.value - 1)).bind (snap s)).isFinite = true
      rw [he]
      exact isFinite_snap (by rw [e.abs_value]; exact e.le)
    unfold floorDiv
    dsimp only
    rw [hmod, ha]
    have hbind : (Binary64.num a).bind (fun a => .round (a / y.value)) = .num d := hd
    rw [hbind]
    split_ifs
    · exact hdown _
    · exact hpair _
  · refine iff_of_false ?_ h
    rw [not_lt] at h
    -- the multiple is rounded to `x` itself, so the quotient to an infinity
    have hle := abs_multiple_le (x := x) hy
    have hlimit : largest < limit := by
      have := one_lt_limit_sub
      linarith
    obtain ⟨a, ha, habs, -⟩ := Binary64.round_of_lt ((hle.trans x.le).trans_lt hlimit)
    have hover : limit ≤ |a.value / y.value| := by
      rw [abs_div, a.abs_value, habs, nearest_multiple hy h, ← x.abs_value, ← abs_div]
      exact h
    unfold floorDiv
    dsimp only
    rw [hmod, ha]
    have hbind : (Binary64.num a).bind (fun a => .round (a / y.value)) = .inf (decide (a.value / y.value < 0)) :=
      Binary64.round_of_le hover
    rw [hbind]
    split_ifs
    · exact Bool.false_ne_true
    · exact Bool.false_ne_true

/-- What is rounded keeps its side of a unit. -/
theorem Binary64.value_of_round {d : Double} (h : |q| < limit) (hd : round q = num d) :
    (1 ≤ q → 1 ≤ d.value) ∧ (q ≤ -1 → d.value ≤ -1) ∧ (q = 0 → d.value = 0) := by
  obtain ⟨e, he, -, hpos, hneg⟩ := round_of_lt h
  obtain rfl : e = d := by rw [hd] at he; injection he with he; exact he.symm
  refine ⟨fun hq => ?_, fun hq => ?_, ?_⟩
  · have hq' : 0 ≤ q := by linarith
    rw [hpos hq', abs_of_nonneg hq']
    exact one_le_nearest hq
  · have hq' : q < 0 := by linarith
    have hone := one_le_nearest (q := |q|) (by rw [abs_of_neg hq']; linarith)
    rw [hneg hq']
    linarith
  · rintro rfl
    rw [hpos le_rfl, abs_zero, nearest_zero]

theorem towardZero_cases (q : ℚ) : (1 ≤ q ∧ 1 ≤ towardZero q) ∨ (0 ≤ q ∧ q < 1 ∧ towardZero q = 0) ∨
    (-1 < q ∧ q < 0 ∧ towardZero q = 0) ∨ (q ≤ -1 ∧ towardZero q ≤ -1) := by
  unfold towardZero
  rcases lt_or_ge q 0 with hneg | hpos
  · rw [if_pos hneg]
    rcases lt_or_ge (-1) q with hless | hmore
    · exact .inr (.inr (.inl ⟨hless, hneg, Int.ceil_eq_zero_iff.mpr ⟨by simpa using hless, hneg.le⟩⟩))
    · exact .inr (.inr (.inr ⟨hmore, Int.ceil_le.mpr (by exact_mod_cast hmore)⟩))
  · rw [if_neg (not_lt.mpr hpos)]
    rcases lt_or_ge q 1 with hless | hmore
    · exact .inr (.inl ⟨hpos, hless, Int.floor_eq_zero_iff.mpr ⟨hpos, hless⟩⟩)
    · exact .inl ⟨hmore, Int.le_floor.mpr (by exact_mod_cast hmore)⟩

/-- The rounded multiple is on the same side of `y` as the multiple. -/
theorem multiple_sides {a : Double} {t : ℤ} (hy : y.value ≠ 0) (hlt : |(t : ℚ) * y.value| < limit)
    (ha : Binary64.round (t * y.value) = .num a) :
    (1 ≤ t → 1 ≤ a.value / y.value) ∧ (t ≤ -1 → a.value / y.value ≤ -1) ∧ (t = 0 → a.value / y.value = 0) := by
  obtain ⟨e, he, -, hpos, hneg⟩ := Binary64.round_of_lt hlt
  obtain rfl : e = a := by rw [ha] at he; injection he with he; exact he.symm
  have hsize : t ≠ 0 → |y.value| ≤ nearest |(t : ℚ) * y.value| := by
    intro ht
    rw [y.abs_value]
    refine le_nearest (by rw [← y.abs_value]; exact abs_pos.mpr hy) y.exact ?_
    have hone : (1 : ℚ) ≤ |(t : ℚ)| := by exact_mod_cast Int.one_le_abs ht
    rw [abs_mul, y.abs_value]
    exact le_mul_of_one_le_left y.nonneg hone
  rcases lt_or_gt_of_ne hy with hyneg | hypos
  · rw [abs_of_neg hyneg] at hsize
    refine ⟨fun ht => ?_, fun ht => ?_, ?_⟩
    · have ht' : (1 : ℚ) ≤ t := by exact_mod_cast ht
      have hz : (t : ℚ) * y.value < 0 := mul_neg_of_pos_of_neg (by linarith) hyneg
      rw [le_div_iff_of_neg hyneg, hneg hz]
      have := hsize (by omega)
      linarith
    · have ht' : (t : ℚ) ≤ -1 := by exact_mod_cast ht
      have hz : 0 ≤ (t : ℚ) * y.value := mul_nonneg_of_nonpos_of_nonpos (by linarith) hyneg.le
      rw [div_le_iff_of_neg hyneg, hpos hz]
      have := hsize (by omega)
      linarith
    · rintro rfl
      rw [hpos (by simp)]
      simp [nearest_zero]
  · rw [abs_of_pos hypos] at hsize
    refine ⟨fun ht => ?_, fun ht => ?_, ?_⟩
    · have ht' : (1 : ℚ) ≤ t := by exact_mod_cast ht
      have hz : 0 ≤ (t : ℚ) * y.value := mul_nonneg (by linarith) hypos.le
      rw [le_div_iff₀ hypos, hpos hz]
      have := hsize (by omega)
      linarith
    · have ht' : (t : ℚ) ≤ -1 := by exact_mod_cast ht
      have hz : (t : ℚ) * y.value < 0 := mul_neg_of_neg_of_pos (by linarith) hypos
      rw [div_le_iff₀ hypos, hneg hz]
      have := hsize (by omega)
      linarith
    · rintro rfl
      rw [hpos (by simp)]
      simp [nearest_zero]

/-- `mod` has the sign that `r` times `y` has. -/
theorem mod_sign {r w : ℚ} (hw : w ≠ 0) :
    (0 ≤ r → ¬ (r * w ≠ 0 ∧ decide (w < 0) ≠ decide (r * w < 0))) ∧
      (r < 0 → r * w ≠ 0 ∧ decide (w < 0) ≠ decide (r * w < 0)) := by
  rcases lt_or_gt_of_ne hw with hneg | hpos
  · constructor
    · rintro hr ⟨hne, hsign⟩
      have hr' : 0 < r := lt_of_le_of_ne hr fun h => hne (by rw [← h, zero_mul])
      exact hsign (by rw [decide_eq_true hneg, decide_eq_true (mul_neg_of_pos_of_neg hr' hneg)])
    · intro hr
      have hmul := mul_pos_of_neg_of_neg hr hneg
      refine ⟨hmul.ne', ?_⟩
      rw [decide_eq_true hneg, decide_eq_false (not_lt.mpr hmul.le)]
      decide
  · constructor
    · rintro hr ⟨-, hsign⟩
      exact hsign (by rw [decide_eq_false (not_lt.mpr hpos.le), decide_eq_false (not_lt.mpr (mul_nonneg hr hpos.le))])
    · intro hr
      have hmul := mul_neg_of_neg_of_pos hr hpos
      refine ⟨hmul.ne, ?_⟩
      rw [decide_eq_false (not_lt.mpr hpos.le), decide_eq_true hmul]
      decide

theorem Binary64.isFinite_of_isZero {x : Binary64} (h : x.isZero = true) : x.isFinite = true := by
  cases x with
  | num d => rfl
  | nan => cases h
  | inf s => cases h

/-- **A quotient is zero** exactly when it is less than one and has no sign. -/
theorem Double.isZero_floorDiv_iff (hy : y.value ≠ 0) :
    (x.floorDiv y).isZero = true ↔ 0 ≤ x.value / y.value ∧ x.value / y.value < 1 := by
  by_cases h : |x.value / y.value| < limit
  · have hmod : x.value - (x.value - towardZero (x.value / y.value) * y.value) = towardZero (x.value / y.value) * y.value := by
      ring
    have hrest : x.value - towardZero (x.value / y.value) * y.value =
        (x.value / y.value - towardZero (x.value / y.value)) * y.value := by
      rw [sub_mul, div_mul_cancel₀ _ hy]
    have hlimit := one_lt_limit_sub
    obtain ⟨a, ha, -, hquotient⟩ := quotient_of_lt hy h
    obtain ⟨d, hd, -⟩ := Binary64.round_of_lt hquotient
    obtain ⟨hup, hdown, hzero⟩ := multiple_sides hy
      (((abs_multiple_le hy).trans x.le).trans_lt (by linarith)) ha
    obtain ⟨dup, ddown, dzero⟩ := Binary64.value_of_round hquotient hd
    obtain ⟨hsame, hdiffer⟩ := mod_sign (r := x.value / y.value - towardZero (x.value / y.value)) hy
    have hbind : (Binary64.num a).bind (fun a => .round (a / y.value)) = .num d := hd
    have hless : |d.value - 1| < limit := by
      have hd' := abs_le.mp (d.abs_value.le.trans d.le)
      rw [abs_lt]
      constructor <;> linarith
    obtain ⟨e, he, -⟩ := Binary64.round_of_lt hless
    have hcorrected : ∀ s, d.value ≤ 0 →
        ((Binary64.bind (.num d) fun q => .round (q - 1)).bind (snap s)).isZero = false := by
      intro s hneg
      show ((Binary64.round (d.value - 1)).bind (snap s)).isZero = false
      rw [he]
      exact isZero_snap (.inl ((Binary64.value_of_round hless he).2.1 (by linarith)))
    unfold floorDiv
    dsimp only
    rw [hmod, ha, hbind, hrest]
    rcases towardZero_cases (x.value / y.value) with ⟨hq, ht⟩ | ⟨hq, hq', ht⟩ | ⟨hq, hq', ht⟩ | ⟨hq, ht⟩
    · have hfrac : 0 ≤ x.value / y.value - towardZero (x.value / y.value) := by
        have hfloor := Int.floor_le (x.value / y.value)
        rw [towardZero, if_neg (by linarith)]
        linarith
      rw [if_neg (hsame hfrac)]
      have hnot : ¬ (0 ≤ x.value / y.value ∧ x.value / y.value < 1) := fun hlt => by linarith [hlt.2]
      refine iff_of_false ?_ hnot
      have hsnap := isZero_snap (s := x.negative != y.negative) (.inr (dup (hup ht)))
      exact Bool.eq_false_iff.mp hsnap
    · rw [ht, Int.cast_zero, sub_zero] at hsame ⊢
      rw [if_neg (hsame hq)]
      refine iff_of_true ?_ ⟨hq, hq'⟩
      have hnothing : d.value = 0 := dzero (hzero ht)
      show (snap _ d.value).isZero = true
      rw [hnothing, snap, if_pos rfl]
      simp [Binary64.isZero, ofParts]
    · rw [ht, Int.cast_zero, sub_zero] at hdiffer ⊢
      rw [if_pos (hdiffer hq')]
      refine iff_of_false ?_ fun hlt => by linarith [hlt.1]
      exact Bool.eq_false_iff.mp (hcorrected _ (dzero (hzero ht)).le)
    · have hd' : d.value ≤ -1 := ddown (hdown ht)
      refine iff_of_false ?_ fun hlt => by linarith [hlt.1]
      split_ifs
      · exact Bool.eq_false_iff.mp (hcorrected _ (by linarith))
      · have hsnap := isZero_snap (s := x.negative != y.negative) (.inl hd')
        exact Bool.eq_false_iff.mp hsnap
  · have hfinite : (x.floorDiv y).isFinite = false := by
      rw [Bool.eq_false_iff, Ne, Double.isFinite_floorDiv_iff hy]
      exact h
    refine iff_of_false (fun hzero => ?_) fun hlt => ?_
    · rw [Binary64.isFinite_of_isZero hzero] at hfinite
      cases hfinite
    · have hlarge := limit_large
      rw [abs_of_nonneg hlt.1] at h
      have hbits : (0 : ℚ) < 2 ^ 54 := by positivity
      exact h (by linarith [hlt.2])

/-- The quotient of the operands is a number, and not past the limit. -/
def Binary64.Regular : Binary64 → Binary64 → Prop
  | num x, num y => |x.value / y.value| < limit
  | num _, inf _ => True
  | _, _ => False

/-- The quotient of the operands is less than one and has no sign. -/
def Binary64.Vanishes : Binary64 → Binary64 → Prop
  | num x, num y => 0 ≤ x.value / y.value ∧ x.value / y.value < 1
  | num x, inf negative => x.abs = 0 ∨ negative = x.negative
  | _, _ => False

theorem Double.value_ne_zero {d : Double} (h : (Binary64.num d).isZero = false) : d.value ≠ 0 := by
  rw [Binary64.isZero, decide_eq_false_iff_not] at h
  intro hzero
  rw [← d.abs_value, hzero, abs_zero] at h
  exact h rfl

theorem Binary64.isZero_round_neg_one : (round (-1)).isZero = false := by
  have h := isZero_round_intCast (n := -1) (by decide)
  push_cast at h
  exact h

theorem Binary64.isFinite_floorDiv_iff {x y : Binary64} (hy : y.isZero = false) :
    (x.floorDiv y).isFinite = true ↔ Regular x y := by
  rcases x with _ | s | x
  · exact iff_of_false Bool.false_ne_true id
  · exact iff_of_false Bool.false_ne_true id
  · rcases y with _ | s' | y
    · exact iff_of_false Bool.false_ne_true id
    · refine iff_of_true ?_ trivial
      have hone : (round (-1)).isFinite = true := by
        rw [isFinite_round_iff]
        have hlarge := limit_large
        norm_num at hlarge ⊢
        linarith
      rw [floorDiv]
      split_ifs
      · exact hone
      · rfl
    · exact Double.isFinite_floorDiv_iff (Double.value_ne_zero hy)

theorem Binary64.isZero_floorDiv_iff {x y : Binary64} (hy : y.isZero = false) :
    (x.floorDiv y).isZero = true ↔ Vanishes x y := by
  rcases x with _ | s | x
  · exact iff_of_false Bool.false_ne_true id
  · exact iff_of_false Bool.false_ne_true id
  · rcases y with _ | s' | y
    · exact iff_of_false Bool.false_ne_true id
    · rw [floorDiv, Vanishes]
      by_cases hdown : x.abs ≠ 0 ∧ s' ≠ x.negative
      · rw [if_pos hdown]
        exact iff_of_false (Bool.eq_false_iff.mp isZero_round_neg_one) fun h => h.elim hdown.1 hdown.2
      · rw [if_neg hdown]
        refine iff_of_true (by simp [isZero, Double.ofParts]) ?_
        by_cases hzero : x.abs = 0
        · exact .inl hzero
        · exact .inr (not_not.mp fun hne => hdown ⟨hzero, hne⟩)
    · exact Double.isZero_floorDiv_iff (Double.value_ne_zero hy)

end

end Persona.Lib
