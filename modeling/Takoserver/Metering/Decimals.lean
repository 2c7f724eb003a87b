import Takoserver.Metering.Pricing

/-!
# The arithmetic of prices

A number to be priced is read in the text that `String` makes of it, as exactly the decimal that
stands there.  Sums and products of the fractions are exact and reduced, so that their order does
not matter, and only the quantization rounds.
-/

namespace Takoserver.Metering

open JsonText

variable {a b r : RationalMicros} {text : List Char} {n d : ℕ}

/-! ### The text of a number -/

/-- `(?:\.(\d+))?`, and what follows it. -/
def readFractional : List Char → Option (List Char × List Char)
  | '.' :: rest => readDigits rest
  | rest => some ([], rest)

/-- `/^(\d+)(?:\.(\d+))?(?:e([+-]?\d+))?$/u.exec(text)`, with the exponent as a number. -/
def execDecimal (text : List Char) : Option Decimal := do
  if 'E' ∈ text then none
  let (whole, rest) ← readDigits text
  let (fractional, rest) ← readFractional rest
  match readExponent rest with
  | some (exponent, []) =>
      some ⟨Nat.ofDigitChars 10 (whole ++ fractional) 0, exponent - fractional.length⟩
  | _ => none

/-- `decimalRational` of a finite number; `none` where it throws. -/
def readRational (value : ℚ) : Option RationalMicros :=
  if value < 0 then none else (execDecimal (numberText value)).map decimalRational

theorem decimalRational_value (m : Decimal) :
    (decimalRational m).value = m.digits * 10 ^ m.exponent := by
  have hread {n d : ℕ} (hd : 0 < d) : ((rational n d).getD .zero).value = n / d := by
    obtain ⟨r, hr⟩ := Option.isSome_iff_exists.mp (rational_isSome (n := n) hd)
    rw [hr]
    exact rational_value hr
  unfold decimalRational
  split_ifs with hsign
  · obtain ⟨j, hj⟩ := Int.eq_ofNat_of_zero_le hsign
    rw [hread Nat.one_pos, hj]
    simp
  · obtain ⟨j, hj⟩ : ∃ j : ℕ, m.exponent = -j := ⟨(-m.exponent).toNat, by omega⟩
    rw [hread (Nat.pow_pos (by decide)), hj, zpow_neg]
    simp [div_eq_mul_inv]

/-- **What is made of a text is the decimal that it is.** -/
theorem execDecimal_value {q : ℚ} (hE : 'E' ∉ text) (h : readMagnitude text = some (q, [])) :
    ∃ m, execDecimal text = some m ∧ (decimalRational m).value = q := by
  unfold readMagnitude at h
  obtain ⟨⟨whole, rest⟩, hwhole, h⟩ := Option.bind_eq_some_iff.mp h
  dsimp only at h
  split at h
  · cases h
  obtain ⟨⟨fraction, rest'⟩, hfraction, h⟩ := Option.bind_eq_some_iff.mp h
  obtain ⟨⟨exponent, rest''⟩, hexponent, h⟩ := Option.bind_eq_some_iff.mp h
  cases h
  have hdigits : ∃ fractional, readFractional rest = some (fractional, rest') ∧
      fraction = (Nat.ofDigitChars 10 fractional 0 : ℚ) / 10 ^ fractional.length := by
    unfold readFraction at hfraction
    split at hfraction
    · obtain ⟨⟨fractional, _⟩, hread, hpure⟩ := Option.bind_eq_some_iff.mp hfraction
      cases hpure
      exact ⟨fractional, hread, rfl⟩
    · next hpoint =>
      cases hfraction
      refine ⟨[], ?_, by simp [Nat.ofDigitChars]⟩
      unfold readFractional
      split
      · exact absurd rfl (hpoint _)
      · rfl
  obtain ⟨fractional, hread, rfl⟩ := hdigits
  refine ⟨⟨Nat.ofDigitChars 10 (whole ++ fractional) 0, exponent - fractional.length⟩, ?_, ?_⟩
  · rw [execDecimal, if_neg hE, hwhole, Option.bind_eq_bind, Option.bind_some]
    dsimp only
    rw [hread, Option.bind_some]
    dsimp only
    rw [hexponent]
  · have hsplit := ofDigitChars_split (whole ++ fractional) whole.length
    rw [List.take_left, List.drop_left] at hsplit
    rw [decimalRational_value, hsplit, zpow_sub₀ (by norm_num), zpow_natCast]
    ring

/-- No text of a decimal has an `E`. -/
theorem not_mem_text (d : Decimal) : 'E' ∉ d.text := by
  have hdigits (n : ℕ) : 'E' ∉ Nat.toDigits 10 n := fun h => absurd (isDigit_toDigits n _ h) (by decide)
  have htake (n i : ℕ) : 'E' ∉ (Nat.toDigits 10 n).take i := fun h => hdigits n (List.mem_of_mem_take h)
  have hdrop (n i : ℕ) : 'E' ∉ (Nat.toDigits 10 n).drop i := fun h => hdigits n (List.mem_of_mem_drop h)
  simp only [Decimal.text]
  split_ifs <;> simp [hdigits, htake, hdrop, List.mem_replicate, -List.drop_one]

theorem readRational_value {x : ℚ} (hx : nearest x = some x) (hnonneg : 0 ≤ x) :
    ∃ r, readRational x = some r ∧ readMagnitude (numberText x) = some (r.value, []) := by
  obtain ⟨q, hE, hread⟩ : ∃ q, 'E' ∉ numberText x ∧ readMagnitude (numberText x) = some (q, []) := by
    rcases hnonneg.eq_or_lt with rfl | hpos
    · exact ⟨0, by simp [numberText], by decide +kernel⟩
    obtain ⟨d, hd, -, hdigits⟩ := nearest_shortest hx hpos
    have htext : numberText x = d.text := by
      unfold numberText
      rw [if_neg hpos.ne', if_neg (not_lt.mpr hpos.le), hd]
      rfl
    have hread := readMagnitude_text hdigits (show Ends [] from nofun)
    rw [List.append_nil] at hread
    rw [htext]
    exact ⟨_, not_mem_text d, hread⟩
  obtain ⟨m, hm, rfl⟩ := execDecimal_value hE hread
  exact ⟨decimalRational m, by rw [readRational, if_neg (not_lt.mpr hnonneg), hm]; rfl, hread⟩

/-! ### Reduced fractions -/

/-- In lowest terms. -/
def RationalMicros.Reduced (r : RationalMicros) : Prop := r.numerator.Coprime r.denominator

theorem rational_spec (hd : 0 < d) :
    ∃ r, rational n d = some r ∧ r.value = n / d ∧ r.Reduced := by
  obtain ⟨r, hr⟩ := Option.isSome_iff_exists.mp (rational_isSome (n := n) hd)
  refine ⟨r, hr, rational_value hr, ?_⟩
  rw [rational, dif_pos hd] at hr
  cases hr
  show Nat.Coprime (n / euclid n d) (d / euclid n d)
  rw [euclid_eq_gcd]
  exact Nat.coprime_div_gcd_div_gcd (Nat.gcd_pos_of_pos_right n hd)

theorem RationalMicros.Reduced.eq (ha : a.Reduced) (hb : b.Reduced) (h : a.value = b.value) :
    a = b := by
  obtain ⟨hn, hd⟩ := Rat.div_int_inj (a := a.numerator) (b := a.denominator) (c := b.numerator)
    (d := b.denominator) (by exact_mod_cast a.pos) (by exact_mod_cast b.pos) ha hb
    (by push_cast; exact h)
  cases a
  cases b
  simp_all

theorem addRational_reduced (a b : RationalMicros) : (addRational a b).Reduced := by
  obtain ⟨r, hr, -, hreduced⟩ := rational_spec (Nat.mul_pos a.pos b.pos)
  rw [addRational, hr]
  exact hreduced

theorem addRational_assoc (a b r : RationalMicros) :
    addRational (addRational a b) r = addRational a (addRational b r) := by
  refine (addRational_reduced _ _).eq (addRational_reduced _ _) ?_
  simp only [addRational_value, add_assoc]

theorem addRational_right_comm (r a b : RationalMicros) :
    addRational (addRational r a) b = addRational (addRational r b) a := by
  refine (addRational_reduced _ _).eq (addRational_reduced _ _) ?_
  simp only [addRational_value, add_right_comm]

/-! ### Quantization -/

/-- The projection is the floor of the exact rational, where the floor is a safe integer. -/
theorem floorPricedMicros_iff {micros : ℕ} :
    floorPricedMicros r = some micros ↔ (micros : ℤ) = ⌊r.value⌋ ∧ micros ≤ maxSafeInteger := by
  rw [floorPricedMicros, safeMicros_eq_some, RationalMicros.value, Rat.floor_natCast_div_natCast]
  norm_cast

/-- **Decimals are read exactly, sums and products are exact and reduced in any order, and the
quantizations are the floor and the ceiling**, where these are safe integers: off by less than one
micro, at whole numbers by none. -/
theorem meter_arithmetic :
    (∀ x, nearest x = some x → 0 ≤ x →
      ∃ r, readRational x = some r ∧ readMagnitude (numberText x) = some (r.value, [])) ∧
    (∀ a b, (addRational a b).value = a.value + b.value ∧ (addRational a b).Reduced ∧
      ∃ r, rational (a.numerator * b.numerator) (a.denominator * b.denominator) = some r ∧
        r.value = a.value * b.value ∧ r.Reduced) ∧
    (∀ a b : RationalMicros, a.Reduced → b.Reduced → a.value = b.value → a = b) ∧
    (∀ a b c, addRational (addRational a b) c = addRational a (addRational b c)) ∧
    (∀ l l' : List RationalMicros, l.Perm l' →
      l.foldl addRational .zero = l'.foldl addRational .zero) ∧
    (∀ r micros, floorPricedMicros r = some micros ↔
      (micros : ℤ) = ⌊r.value⌋ ∧ micros ≤ maxSafeInteger) ∧
    (∀ r micros, ceilPricedMicros r = some micros ↔
      (micros : ℤ) = ⌈r.value⌉ ∧ micros ≤ maxSafeInteger) ∧
    ∀ r floor ceiling, floorPricedMicros r = some floor → ceilPricedMicros r = some ceiling →
      floor ≤ r.value ∧ r.value ≤ ceiling ∧ ceiling < floor + 2 ∧
        (floor = r.value ↔ ∃ k : ℕ, r.value = k) ∧ (r.value = ceiling ↔ ∃ k : ℕ, r.value = k) := by
  refine ⟨fun x hx => readRational_value hx, fun a b => ⟨addRational_value a b,
    addRational_reduced a b, ?_⟩, fun a b ha hb => ha.eq hb, addRational_assoc,
    fun l l' h => h.foldl_eq' (fun a _ b _ r => addRational_right_comm r a b) _,
    fun r micros => floorPricedMicros_iff, fun r micros => ceilPricedMicros_iff, ?_⟩
  · obtain ⟨r, hr, hvalue, hreduced⟩ := rational_spec (n := a.numerator * b.numerator)
      (Nat.mul_pos a.pos b.pos)
    refine ⟨r, hr, ?_, hreduced⟩
    rw [hvalue, RationalMicros.value, RationalMicros.value, div_mul_div_comm]
    push_cast
    rfl
  · intro r floor ceiling hfloor hceiling
    have hf := (floorPricedMicros_iff.mp hfloor).1
    have hc := ceilPricedMicros_eq hceiling
    have hle : (floor : ℚ) ≤ r.value := by
      exact_mod_cast hf ▸ Int.floor_le r.value
    have hge : r.value ≤ ceiling := by
      exact_mod_cast hc ▸ Int.le_ceil r.value
    refine ⟨hle, hge, ?_, ⟨fun h => ⟨_, h.symm⟩, ?_⟩, ⟨fun h => ⟨_, h⟩, ?_⟩⟩
    · have := Int.ceil_le_floor_add_one r.value
      omega
    · rintro ⟨k, hk⟩
      rw [hk, Int.floor_natCast] at hf
      rw [hk]
      exact_mod_cast hf
    · rintro ⟨k, hk⟩
      rw [hk, Int.ceil_natCast] at hc
      rw [hk]
      exact_mod_cast hc.symm

/-- Four thirds and a half: the sum is `11/6`, and lies between its quantizations. -/
theorem meter_arithmetic_sum :
    let r := addRational ⟨4, 3, by decide⟩ ⟨1, 2, by decide⟩
    floorPricedMicros r = some 1 ∧ ceilPricedMicros r = some 2 ∧ 1 ≤ r.value ∧ r.value ≤ 2 ∧
      ¬∃ k : ℕ, r.value = k := by
  intro r
  have hfloor : floorPricedMicros r = some 1 := by decide +kernel
  have hceiling : ceilPricedMicros r = some 2 := by decide +kernel
  obtain ⟨hle, hge, -, hwhole, -⟩ :=
    meter_arithmetic.2.2.2.2.2.2.2 r 1 2 hfloor hceiling
  refine ⟨hfloor, hceiling, by exact_mod_cast hle, by exact_mod_cast hge, fun hk => ?_⟩
  have hone := hwhole.mpr hk
  rw [addRational_value] at hone
  norm_num [RationalMicros.value] at hone

end Takoserver.Metering
