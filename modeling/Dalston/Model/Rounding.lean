import Dalston.Model.Json

/-!
# Rounding

`round(x)` and `round(x, 3)`, which take the even one of two nearest values. Times in
seconds are rounded to milliseconds this way. The arithmetic of floats rounds to 53 binary
digits; its range of exponents is left open.
-/

namespace Dalston.Model

section Whole

/-- The nearest whole number is at most one half away. -/
theorem abs_roundHalfEven_sub_le (q : Rat) : |(roundHalfEven q : Rat) - q| ≤ 1 / 2 := by
  have hfloor := Int.floor_le q
  have hnext := Int.lt_floor_add_one q
  rw [abs_le]
  simp only [roundHalfEven]
  split_ifs with hlow hhigh heven
  · constructor <;> linarith
  · push_cast
    constructor <;> linarith
  · constructor <;> linarith
  · push_cast
    constructor <;> linarith

@[simp] theorem roundHalfEven_intCast (n : Int) : roundHalfEven n = n := by
  simp [roundHalfEven]

theorem roundHalfEven_mono {p q : Rat} (h : p ≤ q) : roundHalfEven p ≤ roundHalfEven q := by
  by_contra hlt
  have hstep : ((roundHalfEven q : Int) : Rat) + 1 ≤ roundHalfEven p := by
    exact_mod_cast not_le.mp hlt
  have hp := abs_le.mp (abs_roundHalfEven_sub_le p)
  have hq := abs_le.mp (abs_roundHalfEven_sub_le q)
  -- two nearest values one apart meet only half way
  have heq : p = q := by linarith
  subst heq
  exact hlt le_rfl

end Whole

section Milliseconds

/-- `round(x, 3)`. -/
def roundMs (x : Rat) : Rat := roundHalfEven (x * 1000) / 1000

theorem roundMs_mono {x y : Rat} (h : x ≤ y) : roundMs x ≤ roundMs y := by
  have hround : ((roundHalfEven (x * 1000) : Int) : Rat) ≤ roundHalfEven (y * 1000) := by
    exact_mod_cast roundHalfEven_mono (by linarith)
  exact div_le_div_of_nonneg_right hround (by norm_num)

@[simp] theorem roundMs_roundMs (x : Rat) : roundMs (roundMs x) = roundMs x := by
  have hwhole : roundMs x * 1000 = roundHalfEven (x * 1000) := by
    rw [roundMs]
    ring
  rw [roundMs, hwhole, roundHalfEven_intCast, roundMs]

theorem roundMs_max (x y : Rat) : roundMs (max x y) = max (roundMs x) (roundMs y) :=
  Monotone.map_max fun _ _ h => roundMs_mono h

theorem roundMs_min (x y : Rat) : roundMs (min x y) = min (roundMs x) (roundMs y) :=
  Monotone.map_min fun _ _ h => roundMs_mono h

end Milliseconds

section Double

/-- The nearest number of 53 binary digits. -/
def roundDouble (x : Rat) : Rat :=
  let unit : Rat := 2 ^ (Int.log 2 |x| - 52)
  roundHalfEven (x / unit) * unit

/-- The largest relative error of one rounding. -/
def unitRoundoff : Rat := 1 / 2 ^ 53

theorem abs_roundDouble_sub_le (x : Rat) : |roundDouble x - x| ≤ unitRoundoff * |x| := by
  rcases eq_or_ne x 0 with rfl | hx
  · simp [roundDouble, roundHalfEven]
  · have hunit : (0 : Rat) < 2 ^ (Int.log 2 |x| - 52) := by positivity
    have hlow : (2 : Rat) ^ Int.log 2 |x| ≤ |x| := by
      exact_mod_cast Int.zpow_log_le_self (R := Rat) (b := 2) (by norm_num) (abs_pos.mpr hx)
    calc |roundDouble x - x|
        = |(roundHalfEven (x / 2 ^ (Int.log 2 |x| - 52)) : Rat) -
            x / 2 ^ (Int.log 2 |x| - 52)| * 2 ^ (Int.log 2 |x| - 52) := by
          rw [← abs_of_pos hunit, ← abs_mul, abs_of_pos hunit, sub_mul,
            div_mul_cancel₀ _ hunit.ne', roundDouble]
      _ ≤ 1 / 2 * 2 ^ (Int.log 2 |x| - 52) :=
          mul_le_mul_of_nonneg_right (abs_roundHalfEven_sub_le _) hunit.le
      _ = unitRoundoff * 2 ^ Int.log 2 |x| := by
          rw [zpow_sub₀ (by norm_num), unitRoundoff]
          norm_num
          ring
      _ ≤ unitRoundoff * |x| :=
          mul_le_mul_of_nonneg_left hlow (by norm_num [unitRoundoff])

theorem roundDouble_le {x : Rat} (h : 0 ≤ x) : roundDouble x ≤ (1 + unitRoundoff) * x := by
  have herror := (abs_le.mp (abs_roundDouble_sub_le x)).2
  rw [abs_of_nonneg h] at herror
  linarith

theorem le_roundDouble {x : Rat} (h : 0 ≤ x) : (1 - unitRoundoff) * x ≤ roundDouble x := by
  have herror := (abs_le.mp (abs_roundDouble_sub_le x)).1
  rw [abs_of_nonneg h] at herror
  linarith

/-- The rounded value keeps between the powers of two around the number. -/
theorem roundDouble_mem {x : Rat} (h : 0 < x) :
    2 ^ Int.log 2 x ≤ roundDouble x ∧ roundDouble x ≤ 2 ^ (Int.log 2 x + 1) := by
  have hunit : (0 : Rat) < 2 ^ (Int.log 2 x - 52) := by positivity
  have hlow : (2 : Rat) ^ Int.log 2 x ≤ x := by
    exact_mod_cast Int.zpow_log_le_self (R := Rat) (b := 2) (by norm_num) h
  have hhigh : x ≤ (2 : Rat) ^ (Int.log 2 x + 1) := by
    exact_mod_cast (Int.lt_zpow_succ_log_self (R := Rat) (b := 2) (by norm_num) x).le
  -- both powers are whole multiples of the last digit
  have hpow : ∀ k : Nat, ((2 ^ k : Int) : Rat) * 2 ^ (Int.log 2 x - 52) =
      2 ^ (Int.log 2 x + (k - 52)) := by
    intro k
    rw [Int.cast_pow, Int.cast_ofNat, ← zpow_natCast, ← zpow_add₀ (by norm_num)]
    congr 1
    ring
  have hfloor : ((2 ^ 52 : Int) : Rat) * 2 ^ (Int.log 2 x - 52) = 2 ^ Int.log 2 x := by
    rw [hpow, Nat.cast_ofNat, sub_self, add_zero]
  have hceil : ((2 ^ 53 : Int) : Rat) * 2 ^ (Int.log 2 x - 52) = 2 ^ (Int.log 2 x + 1) := hpow 53
  rw [← hfloor] at hlow
  rw [← hceil] at hhigh
  rw [← hfloor, ← hceil, roundDouble, abs_of_pos h]
  have hleast := roundHalfEven_mono ((le_div_iff₀ hunit).mpr hlow)
  have hmost := roundHalfEven_mono ((div_le_iff₀ hunit).mpr hhigh)
  rw [roundHalfEven_intCast] at hleast hmost
  exact ⟨mul_le_mul_of_nonneg_right (Int.cast_le.mpr hleast) hunit.le,
    mul_le_mul_of_nonneg_right (Int.cast_le.mpr hmost) hunit.le⟩

theorem roundDouble_nonneg {x : Rat} (h : 0 ≤ x) : 0 ≤ roundDouble x :=
  (mul_nonneg (by norm_num [unitRoundoff]) h).trans (le_roundDouble h)

theorem roundDouble_mono {x y : Rat} (hx : 0 ≤ x) (h : x ≤ y) : roundDouble x ≤ roundDouble y := by
  rcases hx.eq_or_lt with rfl | hpos
  · rw [show roundDouble 0 = 0 by simp [roundDouble, roundHalfEven]]
    exact roundDouble_nonneg h
  · have hpos' : 0 < y := hpos.trans_le h
    rcases (Int.log_mono_right (b := 2) hpos h).eq_or_lt with hlog | hlog
    · rw [roundDouble, roundDouble, abs_of_pos hpos, abs_of_pos hpos', hlog]
      have hunit : (0 : Rat) < 2 ^ (Int.log 2 y - 52) := by positivity
      have hround := roundHalfEven_mono (div_le_div_of_nonneg_right h hunit.le)
      exact mul_le_mul_of_nonneg_right (by exact_mod_cast hround) hunit.le
    · calc roundDouble x
          ≤ 2 ^ (Int.log 2 x + 1) := (roundDouble_mem hpos).2
        _ ≤ 2 ^ Int.log 2 y := zpow_le_zpow_right₀ (by norm_num) (Int.add_one_le_of_lt hlog)
        _ ≤ roundDouble y := (roundDouble_mem hpos').1

theorem roundDouble_add_nonneg {x d : Rat} (hx : 0 ≤ x) (hd : 0 ≤ d) : 0 ≤ roundDouble (x + d) :=
  roundDouble_nonneg (add_nonneg hx hd)

/-- Rounded sums keep the order of what they add. -/
theorem roundDouble_add_le {x y d : Rat} (hx : 0 ≤ x) (hd : 0 ≤ d) (h : x ≤ y) :
    roundDouble (x + d) ≤ roundDouble (y + d) :=
  roundDouble_mono (add_nonneg hx hd) (add_le_add_left h d)

/-- Whole numbers in between are kept: below `2 ^ 53` they are numbers of 53 digits. -/
theorem roundDouble_between (k : Nat) {x : Rat} (h : 0 ≤ x) (hx : x < 2 ^ 53) :
    ((k : Rat) ≤ x → (k : Rat) ≤ roundDouble x) ∧ (x ≤ k → roundDouble x ≤ k) := by
  have hlog : Int.log 2 |x| ≤ 52 := by
    rcases eq_or_lt_of_le h with rfl | hpos
    · simp
    · rw [abs_of_pos hpos]
      have hlt : x < ((2 : Nat) : Rat) ^ (53 : Int) := by exact_mod_cast hx
      have hlog := (Int.lt_zpow_iff_log_lt (by norm_num) hpos).mp hlt
      omega
  obtain ⟨j, hj⟩ := Int.eq_ofNat_of_zero_le (by omega : 0 ≤ 52 - Int.log 2 |x|)
  have hunit : (2 : Rat) ^ (Int.log 2 |x| - 52) = (2 ^ j : Rat)⁻¹ := by
    rw [show Int.log 2 |x| - 52 = -(j : Int) by omega, zpow_neg, zpow_natCast]
  have hpow : (0 : Rat) < 2 ^ j := by positivity
  have hwhole : ((k * 2 ^ j : Int) : Rat) = k * 2 ^ j := by push_cast; rfl
  rw [roundDouble]
  simp only [hunit, div_inv_eq_mul]
  constructor
  · intro hle
    have hround := roundHalfEven_mono (mul_le_mul_of_nonneg_right hle hpow.le)
    rw [← hwhole, roundHalfEven_intCast] at hround
    rw [le_mul_inv_iff₀ hpow, ← hwhole]
    exact_mod_cast hround
  · intro hle
    have hround := roundHalfEven_mono (mul_le_mul_of_nonneg_right hle hpow.le)
    rw [← hwhole, roundHalfEven_intCast] at hround
    rw [mul_inv_le_iff₀ hpow, ← hwhole]
    exact_mod_cast hround

/-- A computed value is off by the relative errors of so many roundings at most. -/
structure Within (k : Nat) (exact x : Rat) : Prop where
  low : (1 - unitRoundoff) ^ k * exact ≤ x
  high : x ≤ (1 + unitRoundoff) ^ k * exact

theorem within_self (x : Rat) : Within 0 x x := ⟨by simp, by simp⟩

theorem Within.nonneg {k : Nat} {exact x : Rat} (h : Within k exact x) (hexact : 0 ≤ exact) :
    0 ≤ x :=
  le_trans (mul_nonneg (pow_nonneg (by norm_num [unitRoundoff]) k) hexact) h.low

theorem Within.mono {k k' : Nat} {exact x : Rat} (h : Within k exact x) (hexact : 0 ≤ exact)
    (hle : k ≤ k') : Within k' exact x := by
  have hlow : (1 - unitRoundoff) ^ k' ≤ (1 - unitRoundoff) ^ k :=
    pow_le_pow_of_le_one (by norm_num [unitRoundoff]) (by norm_num [unitRoundoff]) hle
  have hhigh : (1 + unitRoundoff) ^ k ≤ (1 + unitRoundoff) ^ k' :=
    pow_le_pow_right₀ (by norm_num [unitRoundoff]) hle
  exact ⟨(mul_le_mul_of_nonneg_right hlow hexact).trans h.low,
    h.high.trans (mul_le_mul_of_nonneg_right hhigh hexact)⟩

theorem Within.add {k : Nat} {exact exact' x y : Rat} (h : Within k exact x)
    (h' : Within k exact' y) : Within k (exact + exact') (x + y) :=
  ⟨by linarith [h.low, h'.low], by linarith [h.high, h'.high]⟩

theorem Within.mul {k : Nat} {exact x c : Rat} (h : Within k exact x) (hc : 0 ≤ c) :
    Within k (exact * c) (x * c) := by
  constructor
  · rw [← mul_assoc]
    exact mul_le_mul_of_nonneg_right h.low hc
  · rw [← mul_assoc]
    exact mul_le_mul_of_nonneg_right h.high hc

theorem Within.round {k : Nat} {exact x : Rat} (h : Within k exact x) (hexact : 0 ≤ exact) :
    Within (k + 1) exact (roundDouble x) := by
  have hx : 0 ≤ x := h.nonneg hexact
  constructor
  · calc (1 - unitRoundoff) ^ (k + 1) * exact
        = (1 - unitRoundoff) * ((1 - unitRoundoff) ^ k * exact) := by ring
      _ ≤ (1 - unitRoundoff) * x :=
          mul_le_mul_of_nonneg_left h.low (by norm_num [unitRoundoff])
      _ ≤ roundDouble x := le_roundDouble hx
  · calc roundDouble x
        ≤ (1 + unitRoundoff) * x := roundDouble_le hx
      _ ≤ (1 + unitRoundoff) * ((1 + unitRoundoff) ^ k * exact) :=
          mul_le_mul_of_nonneg_left h.high (by norm_num [unitRoundoff])
      _ = (1 + unitRoundoff) ^ (k + 1) * exact := by ring

/-- `int(x)`, which drops the fraction. -/
def wholePart (x : Rat) : Int := x.num.tdiv x.den

theorem wholePart_of_nonneg {x : Rat} (h : 0 ≤ x) : wholePart x = ⌊x⌋ := by
  rw [wholePart, Int.tdiv_eq_ediv_of_nonneg (Rat.num_nonneg.mpr h)]
  exact Rat.floor_def'.symm

end Double

end Dalston.Model
