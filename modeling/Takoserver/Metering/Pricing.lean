import Takoserver.Funds
import Takoserver.Numbers

/-!
# Exact prices

`src/meter-pricing.ts`: the nonnegative rationals in which usage is priced, and
the one quantization to micros at settlement.  A decimal text without leading
zeros stands here for its number, and a `bigint` of these functions is a natural
number, for none of them is given a negative one.
-/

namespace Takoserver.Metering

/-! ### Reduced fractions -/

/-- `RationalMicros`. -/
structure RationalMicros where
  numerator : ℕ
  denominator : ℕ
  pos : 0 < denominator

instance : DecidableEq RationalMicros := fun r q =>
  decidable_of_iff (r.numerator = q.numerator ∧ r.denominator = q.denominator)
    (by cases r; cases q; simp)

/-- The number a fraction is. -/
def RationalMicros.value (r : RationalMicros) : ℚ := r.numerator / r.denominator

/-- The loop of `rational`. -/
def euclid (a b : ℕ) : ℕ :=
  if _h : b = 0 then a else euclid b (a % b)
termination_by b
decreasing_by exact Nat.mod_lt a (Nat.pos_of_ne_zero _h)

theorem euclid_eq_gcd (a b : ℕ) : euclid a b = Nat.gcd a b := by
  induction a, b using euclid.induct with
  | case1 a => simp [euclid]
  | case2 a b hb ih =>
    rw [euclid, dif_neg hb, ih, Nat.gcd_comm a b, Nat.gcd_rec b a, Nat.gcd_comm]

theorem euclid_dvd_left (a b : ℕ) : euclid a b ∣ a := euclid_eq_gcd a b ▸ Nat.gcd_dvd_left a b

theorem euclid_dvd_right (a b : ℕ) : euclid a b ∣ b := euclid_eq_gcd a b ▸ Nat.gcd_dvd_right a b

/-- What divides a positive number leaves a positive quotient. -/
theorem div_euclid_pos {a b : ℕ} (hb : 0 < b) : 0 < b / euclid a b :=
  Nat.div_pos (Nat.le_of_dvd hb (euclid_dvd_right a b))
    (Nat.pos_of_dvd_of_pos (euclid_dvd_right a b) hb)

/-- `rational`; `none` where it throws. -/
def rational (numerator denominator : ℕ) : Option RationalMicros :=
  if h : 0 < denominator then
    some
      { numerator := numerator / euclid numerator denominator
        denominator := denominator / euclid numerator denominator
        pos := div_euclid_pos h }
  else none

/-- The arithmetic is that of `ℚ`. -/
theorem rational_value {n d : ℕ} {r : RationalMicros} (h : rational n d = some r) :
    r.value = n / d := by
  unfold rational at h
  split at h
  · next hd =>
    cases h
    have hg : (euclid n d : ℚ) ≠ 0 := by
      have := Nat.pos_of_dvd_of_pos (euclid_dvd_right n d) hd
      exact_mod_cast this.ne'
    unfold RationalMicros.value
    rw [Nat.cast_div (euclid_dvd_left n d) hg, Nat.cast_div (euclid_dvd_right n d) hg]
    exact div_div_div_cancel_right₀ hg _ _
  · cases h

theorem rational_isSome {n d : ℕ} (h : 0 < d) : (rational n d).isSome = true := by
  unfold rational
  rw [dif_pos h]
  rfl

/-- `rational(0n)`. -/
def RationalMicros.zero : RationalMicros := ⟨0, 1, Nat.one_pos⟩

@[simp] theorem RationalMicros.zero_value : RationalMicros.zero.value = 0 := by
  simp [RationalMicros.zero, RationalMicros.value]

/-- `addRational`. -/
def addRational (left right : RationalMicros) : RationalMicros :=
  (rational (left.numerator * right.denominator + right.numerator * left.denominator)
    (left.denominator * right.denominator)).getD .zero

@[simp] theorem addRational_value (left right : RationalMicros) :
    (addRational left right).value = left.value + right.value := by
  have hl : (left.denominator : ℚ) ≠ 0 := by exact_mod_cast left.pos.ne'
  have hr : (right.denominator : ℚ) ≠ 0 := by exact_mod_cast right.pos.ne'
  obtain ⟨r, hsum⟩ := Option.isSome_iff_exists.mp
    (rational_isSome (n := left.numerator * right.denominator + right.numerator * left.denominator)
      (Nat.mul_pos left.pos right.pos))
  unfold addRational
  rw [hsum, Option.getD_some, rational_value hsum]
  unfold RationalMicros.value
  push_cast
  field_simp

/-! ### What is read -/

/-- `decimalRational` of a finite number that is not negative, by the text that `String` makes
of it: its digits without the point, and the power of ten they are to be scaled with. -/
def decimalRational (value : Decimal) : RationalMicros :=
  (if 0 ≤ value.exponent then rational (value.digits * 10 ^ value.exponent.toNat) 1
    else rational value.digits (10 ^ (-value.exponent).toNat)).getD .zero

/-- A numeral of at most 512 digits. -/
def shortNumeral (n : ℕ) : Bool := decide ((Nat.toDigits 10 n).length ≤ 512)

/-- `parsePricedRational`; a column that holds no canonical numeral is `none`. -/
def parsePricedRational : Option ℕ → Option ℕ → Option RationalMicros
  | some numerator, some denominator =>
    if shortNumeral numerator && shortNumeral denominator then rational numerator denominator
    else none
  | _, _ => none

/-! ### Quantization -/

/-- `ceilPricedMicros`; `none` where it throws. -/
def ceilPricedMicros (value : RationalMicros) : Option ℕ :=
  safeMicros ((value.numerator + value.denominator - 1) / value.denominator)

/-- `floorPricedMicros`; `none` where it throws. -/
def floorPricedMicros (value : RationalMicros) : Option ℕ :=
  safeMicros (value.numerator / value.denominator)

/-- The rounded division is the ceiling. -/
theorem RationalMicros.ceil_value (value : RationalMicros) :
    ⌈value.value⌉ = ((value.numerator + value.denominator - 1) / value.denominator : ℕ) := by
  have hpos : (0 : ℚ) < value.denominator := by exact_mod_cast value.pos
  rw [Int.ceil_eq_iff]
  set q := (value.numerator + value.denominator - 1) / value.denominator with hq
  -- the remainder of the rounded division decides on which side of `q` the fraction lies
  have hdiv := Nat.div_add_mod (value.numerator + value.denominator - 1) value.denominator
  have hmod := Nat.mod_lt (value.numerator + value.denominator - 1) value.pos
  rw [← hq] at hdiv
  have hle : value.numerator ≤ value.denominator * q := by omega
  have hlt : value.denominator * q < value.numerator + value.denominator := by omega
  unfold RationalMicros.value
  constructor
  · rw [lt_div_iff₀ hpos]
    have : (value.denominator * q : ℚ) < value.numerator + value.denominator := by
      exact_mod_cast hlt
    push_cast
    linarith
  · rw [div_le_iff₀ hpos]
    have : (value.numerator : ℚ) ≤ value.denominator * q := by exact_mod_cast hle
    push_cast
    linarith

/-- **The debit is the ceiling of the exact rational**, and there is one exactly where the ceiling
is a safe integer. -/
theorem ceilPricedMicros_iff {value : RationalMicros} {micros : ℕ} :
    ceilPricedMicros value = some micros ↔
      (micros : ℤ) = ⌈value.value⌉ ∧ micros ≤ maxSafeInteger := by
  rw [ceilPricedMicros, safeMicros_eq_some, RationalMicros.ceil_value, Nat.cast_inj]

theorem ceilPricedMicros_eq {value : RationalMicros} {micros : ℕ}
    (h : ceilPricedMicros value = some micros) : (micros : ℤ) = ⌈value.value⌉ :=
  (ceilPricedMicros_iff.mp h).1

end Takoserver.Metering
