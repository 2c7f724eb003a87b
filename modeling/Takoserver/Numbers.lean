import Takoserver.JsonText

/-!
# Numbers and their texts

A finite JavaScript number is the rational it stands for; the two zeros, which `===`
does not tell apart and which are written alike, are one.  A number is written as the
shortest decimal that is read back as it, and read as the number nearest to what stands
there.
-/

namespace Takoserver

/-! ### Rounding -/

/-- The exponent of the last binary place of a number near `q`. -/
def lastPlace (q : ℚ) : ℤ := max (Int.log 2 |q| - 52) (-1074)

/-- The nearest integer, the even one of two. -/
def roundEven (q : ℚ) : ℤ :=
  if q - ⌊q⌋ < 1 / 2 then ⌊q⌋
  else if 1 / 2 < q - ⌊q⌋ then ⌊q⌋ + 1
  else if ⌊q⌋ % 2 = 0 then ⌊q⌋ else ⌊q⌋ + 1

/-- The number nearest to `q`; none where that is infinite. -/
def nearest (q : ℚ) : Option ℚ :=
  let r := roundEven (q / 2 ^ lastPlace q) * (2 : ℚ) ^ lastPlace q
  if |r| < 2 ^ 1024 then some r else none

/-! ### Decimals -/

/-- A decimal: its digits, and the power of ten of its last one. -/
structure Decimal where
  digits : ℕ
  exponent : ℤ

/-- The rational number. -/
def Decimal.value (d : Decimal) : ℚ := d.digits * 10 ^ d.exponent

/-- The greatest decimal of `k` digits that is no more than `x`. -/
def below (x : ℚ) (k : ℕ) : Decimal :=
  let e := Int.log 10 x + 1 - k
  ⟨⌊x / 10 ^ e⌋.toNat, e⟩

/-- The next one.  One more than the digits there are is a one with one digit more before it. -/
def above (x : ℚ) (k : ℕ) : Decimal :=
  let low := below x k
  if low.digits + 1 = 10 ^ k then ⟨1, low.exponent + k⟩ else ⟨low.digits + 1, low.exponent⟩

/-- The decimal of `k` digits to be written for `x`: of the two around it those that are read back
as it, the closer one, the even one of two. -/
def candidate (x : ℚ) (k : ℕ) : Option Decimal :=
  let low := below x k
  let high := above x k
  let closer := x - low.value < high.value - x ∨
    x - low.value = high.value - x ∧ low.digits % 2 = 0
  if 0 < low.digits ∧ nearest low.value = some x ∧ (closer ∨ nearest high.value ≠ some x) then
    some low
  else if nearest high.value = some x then some high
  else none

/-- The first of the candidates of `k` digits and more. -/
def search (x : ℚ) : ℕ → ℕ → Option Decimal
  | 0, _ => none
  | fuel + 1, k => (candidate x k).or (search x fuel (k + 1))

/-- The decimal that is written for a positive number.  The search ends: a number is a whole
multiple of `2 ^ -1074`, and so of `10 ^ -1074`. -/
def shortest (x : ℚ) : Option Decimal := search x ((Int.log 10 x + 1075).toNat + 1) 1

/-! ### Texts -/

/-- The text of `10 ^ (n - k)` times `digits`, which has `k` digits: `Number::toString`. -/
def Decimal.text (d : Decimal) : List Char :=
  let digits := Nat.toDigits 10 d.digits
  let n : ℤ := d.exponent + digits.length
  if digits.length ≤ n ∧ n ≤ 21 then digits ++ List.replicate d.exponent.toNat '0'
  else if 0 < n ∧ n ≤ 21 then digits.take n.toNat ++ '.' :: digits.drop n.toNat
  else if -6 < n ∧ n ≤ 0 then '0' :: '.' :: List.replicate (-n).toNat '0' ++ digits
  else
    let point := if digits.length = 1 then [] else '.' :: digits.drop 1
    let sign := if 0 < n - 1 then '+' else '-'
    digits.take 1 ++ point ++ 'e' :: sign :: Nat.toDigits 10 (n - 1).natAbs

/-- `Number.prototype.toString`. -/
def numberText (x : ℚ) : List Char :=
  if x = 0 then ['0']
  else if x < 0 then '-' :: ((shortest (-x)).map Decimal.text).getD []
  else ((shortest x).map Decimal.text).getD []

/-! ### What is written rounds to the number -/

theorem above_pos (x : ℚ) (k : ℕ) : 0 < (above x k).digits := by
  simp only [above]
  split
  · exact Nat.one_pos
  · exact Nat.succ_pos _

variable {x : ℚ} {k : ℕ} {d : Decimal} {digits rest : List Char}

theorem candidate_sound (h : candidate x k = some d) :
    nearest d.value = some x ∧ 0 < d.digits := by
  simp only [candidate] at h
  split_ifs at h with hlow hhigh
  · cases h
    exact ⟨hlow.2.1, hlow.1⟩
  · cases h
    exact ⟨hhigh, above_pos x k⟩

theorem search_sound {fuel : ℕ} (h : search x fuel k = some d) :
    nearest d.value = some x ∧ 0 < d.digits := by
  induction fuel generalizing k with
  | zero => cases h
  | succ fuel ih =>
    rw [search, Option.or_eq_some_iff] at h
    rcases h with h | ⟨-, h⟩
    · exact candidate_sound h
    · exact ih h

/-- The search finds a candidate where there is one. -/
theorem search_isSome {fuel j : ℕ} (hkj : k ≤ j) (hj : j < k + fuel) (h : (candidate x j).isSome) :
    (search x fuel k).isSome := by
  induction fuel generalizing k with
  | zero => omega
  | succ fuel ih =>
    rw [search, Option.isSome_or, Bool.or_eq_true]
    by_cases hk : k = j
    · subst hk
      exact Or.inl h
    · exact Or.inr (ih (by omega) (by omega))

/-- A number is a whole multiple of every power of ten from `10 ^ -1074` down. -/
theorem exists_multiple (hx : nearest x = some x) {e : ℤ} (he : e ≤ -1074) :
    ∃ m : ℤ, x = m * 10 ^ e := by
  have hplace : -1074 ≤ lastPlace x := le_max_right _ _
  have hround : x = roundEven (x / 2 ^ lastPlace x) * (2 : ℚ) ^ lastPlace x := by
    simp only [nearest] at hx
    split_ifs at hx
    exact (Option.some.inj hx).symm
  obtain ⟨i, hi⟩ : ∃ i : ℕ, lastPlace x = e + i := ⟨(lastPlace x - e).toNat, by omega⟩
  obtain ⟨j, hj⟩ : ∃ j : ℕ, e = -j := ⟨(-e).toNat, by omega⟩
  have h10 : (10 : ℚ) ^ e = 2 ^ e * (5 : ℚ) ^ e := by
    rw [← mul_zpow]
    norm_num
  have h5 : (5 : ℚ) ^ e * 5 ^ j = 1 := by
    rw [hj, zpow_neg, zpow_natCast]
    exact inv_mul_cancel₀ (by positivity)
  have h2 : (2 : ℚ) ^ lastPlace x = 2 ^ e * 2 ^ i := by
    rw [hi, zpow_add₀ (by norm_num), zpow_natCast]
  refine ⟨roundEven (x / 2 ^ lastPlace x) * 2 ^ i * 5 ^ j, ?_⟩
  obtain ⟨r, hr⟩ : ∃ r, r = roundEven (x / 2 ^ lastPlace x) := ⟨_, rfl⟩
  rw [← hr] at hround ⊢
  calc x = r * (2 ^ e * 2 ^ i) := by rw [hround, h2]
    _ = r * (2 ^ e * 2 ^ i) * (5 ^ e * 5 ^ j) := by rw [h5, mul_one]
    _ = (r * 2 ^ i * 5 ^ j : ℤ) * 10 ^ e := by
      rw [h10]
      push_cast
      ring

theorem candidate_exact (hx : nearest x = some x) (hpos : 0 < x) (hk : Int.log 10 x + 1 - k ≤ -1074) :
    (candidate x k).isSome := by
  obtain ⟨m, hm⟩ := exists_multiple hx hk
  have hten : (0 : ℚ) < 10 ^ (Int.log 10 x + 1 - (k : ℤ)) := zpow_pos (by norm_num) _
  have hmpos : 0 < m := by
    by_contra hneg
    have hle : (m : ℚ) ≤ 0 := by exact_mod_cast not_lt.mp hneg
    have := mul_nonpos_of_nonpos_of_nonneg hle hten.le
    linarith
  have hdiv : x / 10 ^ (Int.log 10 x + 1 - k) = m := by
    rw [eq_comm, eq_div_iff hten.ne']
    exact hm.symm
  have hdigits : (below x k).digits = m.toNat := by
    show ⌊x / 10 ^ (Int.log 10 x + 1 - k)⌋.toNat = m.toNat
    rw [hdiv, Int.floor_intCast]
  have hlow : (below x k).value = x := by
    have hcast : ((m.toNat : ℕ) : ℚ) = m := by
      have := Int.toNat_of_nonneg hmpos.le
      exact_mod_cast this
    rw [Decimal.value, hdigits, hcast]
    exact hm.symm
  have hnearest : nearest (below x k).value = some x := by rw [hlow, hx]
  simp only [candidate]
  -- the number itself is read back: it is passed over only for one that is too
  split_ifs with htaken hhigh
  · rfl
  · rfl
  · exact absurd ⟨by omega, hnearest, Or.inr hhigh⟩ htaken

/-- **What is written for a number rounds to it.** -/
theorem nearest_shortest (hx : nearest x = some x) (hpos : 0 < x) :
    ∃ d, shortest x = some d ∧ nearest d.value = some x ∧ 0 < d.digits := by
  have hsome : (shortest x).isSome := by
    refine search_isSome (j := (Int.log 10 x + 1075).toNat + 1) (by omega) (by omega) ?_
    exact candidate_exact hx hpos (by omega)
  obtain ⟨d, hd⟩ := Option.isSome_iff_exists.mp hsome
  exact ⟨d, hd, search_sound hd⟩

/-! ### The text is read as the decimal it writes -/

open JsonText

theorem readDigits_append (hne : digits ≠ []) (hdigits : ∀ c ∈ digits, c.isDigit = true)
    (hrest : ∀ c, rest.head? = some c → c.isDigit = false) :
    readDigits (digits ++ rest) = some (digits, rest) := by
  have hstop : rest.takeWhile Char.isDigit = [] ∧ rest.dropWhile Char.isDigit = rest := by
    cases rest with
    | nil => exact ⟨rfl, rfl⟩
    | cons c cs => simp [hrest c rfl]
  unfold readDigits
  rw [List.takeWhile_append_of_pos hdigits, List.dropWhile_append_of_pos hdigits, hstop.1,
    hstop.2, List.append_nil]
  simp [hne]

theorem readMagnitude_append {rest₁ rest₂ : List Char} {fraction : ℚ} {exponent : ℤ}
    (hne : digits ≠ []) (hdigits : ∀ c ∈ digits, c.isDigit = true)
    (hzero : digits.length = 1 ∨ digits.head? ≠ some '0')
    (hrest : ∀ c, rest₁.head? = some c → c.isDigit = false)
    (hfraction : readFraction rest₁ = some (fraction, rest₂))
    (hexponent : readExponent rest₂ = some (exponent, rest)) :
    readMagnitude (digits ++ rest₁) =
      some ((Nat.ofDigitChars 10 digits 0 + fraction) * 10 ^ exponent, rest) := by
  have hhead : ¬(1 < digits.length ∧ digits.head? = some '0') := by
    rintro ⟨_, hhead⟩
    rcases hzero with h | h
    · omega
    · exact h hhead
  unfold readMagnitude
  rw [readDigits_append hne hdigits hrest]
  simp [hhead, hfraction, hexponent]

theorem readFraction_none (h : rest.head? ≠ some '.') :
    readFraction rest = some (0, rest) := by
  unfold readFraction
  split
  · exact absurd rfl h
  · rfl

theorem readFraction_digits (hne : digits ≠ []) (hdigits : ∀ c ∈ digits, c.isDigit = true)
    (hrest : ∀ c, rest.head? = some c → c.isDigit = false) :
    readFraction ('.' :: (digits ++ rest)) =
      some ((Nat.ofDigitChars 10 digits 0 : ℚ) / 10 ^ digits.length, rest) := by
  simp [readFraction, readDigits_append hne hdigits hrest]

theorem readExponent_none (h : Ends rest) :
    readExponent rest = some (0, rest) := by
  cases rest with
  | nil => rfl
  | cons c cs =>
    obtain ⟨-, -, he, hE⟩ := h c rfl
    simp [readExponent, he, hE]

theorem isDigit_toDigits (n : ℕ) : ∀ c ∈ Nat.toDigits 10 n, c.isDigit = true := fun _ hc =>
  Nat.isDigit_of_mem_toDigits (by decide) (by decide) hc

theorem readExponent_signed (m : ℤ) (hrest : Ends rest) :
    readExponent ('e' :: (if 0 < m then '+' else '-') :: (Nat.toDigits 10 m.natAbs ++ rest)) =
      some (m, rest) := by
  have hread := readDigits_append Nat.toDigits_ne_nil (isDigit_toDigits m.natAbs)
    fun c hc => (hrest c hc).1
  by_cases hm : 0 < m
  · have habs : |m| = m := abs_of_pos hm
    simp [readExponent, hm, hread, habs]
  · have habs : |m| = -m := abs_of_nonpos (not_lt.mp hm)
    simp [readExponent, hm, hread, habs]

theorem head_toDigits_pos {n : ℕ} (h : 0 < n) : (Nat.toDigits 10 n).head? ≠ some '0' := by
  by_cases hten : 10 ≤ n
  · exact head_toDigits n hten
  · rw [Nat.toDigits_of_lt_base (by omega)]
    intro heq
    have hall : ∀ d < 10, Nat.digitChar d = '0' → d = 0 := by decide
    have := hall n (by omega) (Option.some.inj heq)
    omega

theorem ofDigitChars_split (digits : List Char) (i : ℕ) :
    (Nat.ofDigitChars 10 (digits.take i) 0 : ℚ) +
        Nat.ofDigitChars 10 (digits.drop i) 0 / 10 ^ (digits.drop i).length =
      Nat.ofDigitChars 10 digits 0 / 10 ^ (digits.drop i).length := by
  have hsplit : Nat.ofDigitChars 10 digits 0 =
      10 ^ (digits.drop i).length * Nat.ofDigitChars 10 (digits.take i) 0 +
        Nat.ofDigitChars 10 (digits.drop i) 0 := by
    conv_lhs => rw [← List.take_append_drop i digits]
    rw [Nat.ofDigitChars_append, Nat.ofDigitChars_eq_ofDigitChars_zero]
  rw [hsplit]
  push_cast
  field_simp

theorem Decimal.value_neg {j : ℕ} (h : d.exponent = -j) :
    d.value = d.digits / 10 ^ j := by
  rw [Decimal.value, h, zpow_neg, zpow_natCast, div_eq_mul_inv]

theorem readMagnitude_text (hd : 0 < d.digits) (hrest : Ends rest) :
    readMagnitude (d.text ++ rest) = some (d.value, rest) := by
  obtain ⟨digits, hdigits⟩ : ∃ digits, digits = Nat.toDigits 10 d.digits := ⟨_, rfl⟩
  obtain ⟨n, hn⟩ : ∃ n : ℤ, n = d.exponent + digits.length := ⟨_, rfl⟩
  have hne : digits ≠ [] := hdigits ▸ Nat.toDigits_ne_nil
  have hlength : 0 < digits.length := List.length_pos_iff.mpr hne
  have hall : ∀ c ∈ digits, c.isDigit = true := hdigits ▸ isDigit_toDigits d.digits
  have hhead : digits.head? ≠ some '0' := hdigits ▸ head_toDigits_pos hd
  have hvalue : Nat.ofDigitChars 10 digits 0 = d.digits := by
    rw [hdigits, Nat.ofDigitChars_ten_toDigits]
  have hnd : ∀ c, rest.head? = some c → c.isDigit = false := fun c hc => (hrest c hc).1
  have hdot : rest.head? ≠ some '.' := fun hc => (hrest '.' hc).2.1 rfl
  have hzeros : ∀ j, ∀ c ∈ List.replicate j '0', c.isDigit = true := by
    intro j c hc
    rw [List.eq_of_mem_replicate hc]
    rfl
  simp only [Decimal.text]
  rw [← hdigits, ← hn]
  by_cases hwhole : (digits.length : ℤ) ≤ n ∧ n ≤ 21
  · -- a whole number
    obtain ⟨j, hj⟩ : ∃ j : ℕ, d.exponent = j := ⟨d.exponent.toNat, by omega⟩
    rw [if_pos hwhole, hj, Int.toNat_natCast, readMagnitude_append (by simp [hne])
      (fun c hc => (List.mem_append.mp hc).elim (hall c) (hzeros _ c))
      (Or.inr (by rw [List.head?_append_of_ne_nil _ hne]; exact hhead)) hnd
      (readFraction_none hdot) (readExponent_none hrest), Nat.ofDigitChars_append, hvalue,
      Nat.ofDigitChars_replicate_zero, Decimal.value, hj, zpow_natCast]
    push_cast
    simp [mul_comm]
  rw [if_neg hwhole]
  by_cases hpoint : 0 < n ∧ n ≤ 21
  · -- the point stands among the digits
    have hexp : d.exponent = -((digits.drop n.toNat).length : ℕ) := by
      rw [List.length_drop]
      omega
    have hdrop : digits.drop n.toNat ≠ [] := by
      rw [Ne, List.drop_eq_nil_iff]
      omega
    have htake : (digits.take n.toNat).head? ≠ some '0' := by
      rw [List.head?_take]
      split
      · simp
      · exact hhead
    rw [if_pos hpoint, List.append_assoc, List.cons_append,
      readMagnitude_append (by simp [hne]; omega)
      (fun c hc => hall c (List.mem_of_mem_take hc)) (Or.inr htake) (by simp)
      (readFraction_digits hdrop (fun c hc => hall c (List.mem_of_mem_drop hc)) hnd)
      (readExponent_none hrest), ofDigitChars_split, hvalue, Decimal.value_neg hexp]
    simp
  rw [if_neg hpoint]
  by_cases hsmall : -6 < n ∧ n ≤ 0
  · -- zeros stand between the point and the digits
    have hexp : d.exponent = -((List.replicate (-n).toNat '0' ++ digits).length : ℕ) := by
      rw [List.length_append, List.length_replicate]
      omega
    have htext : '0' :: '.' :: List.replicate (-n).toNat '0' ++ digits ++ rest =
        ['0'] ++ '.' :: ((List.replicate (-n).toNat '0' ++ digits) ++ rest) := by simp
    have hdecimals : Nat.ofDigitChars 10 (List.replicate (-n).toNat '0' ++ digits) 0 = d.digits := by
      rw [Nat.ofDigitChars_append, Nat.ofDigitChars_replicate_zero, Nat.mul_zero, hvalue]
    rw [if_pos hsmall, htext, readMagnitude_append (by simp) (by simp) (Or.inl rfl) (by simp)
      (readFraction_digits (by simp [hne])
        (fun c hc => (List.mem_append.mp hc).elim (hzeros _ c) (hall c)) hnd)
      (readExponent_none hrest), hdecimals, Decimal.value_neg hexp]
    simp [Nat.ofDigitChars]
  -- with an exponent
  rw [if_neg hsmall]
  obtain ⟨tail, htail⟩ : ∃ tail, tail = 'e' :: (if 0 < n - 1 then '+' else '-') ::
      (Nat.toDigits 10 (n - 1).natAbs ++ rest) := ⟨_, rfl⟩
  obtain ⟨point, hpoint⟩ : ∃ point,
      point = if digits.length = 1 then [] else '.' :: digits.drop 1 := ⟨_, rfl⟩
  have htext : digits.take 1 ++ point ++
      'e' :: (if 0 < n - 1 then '+' else '-') :: Nat.toDigits 10 (n - 1).natAbs ++ rest =
      digits.take 1 ++ (point ++ tail) := by
    simp [htail]
  have hfraction : readFraction (point ++ tail) =
      some ((Nat.ofDigitChars 10 (digits.drop 1) 0 : ℚ) / 10 ^ (digits.drop 1).length, tail) := by
    by_cases hone : digits.length = 1
    · rw [hpoint, if_pos hone, List.nil_append, readFraction_none (by simp [htail]),
        List.drop_eq_nil_of_le (by omega)]
      simp [Nat.ofDigitChars]
    · rw [hpoint, if_neg hone]
      refine readFraction_digits ?_ (fun c hc => hall c (List.mem_of_mem_drop hc)) ?_
      · rw [Ne, List.drop_eq_nil_iff]
        omega
      · rw [htail]
        intro c hc
        cases hc
        rfl
  have hplain : ∀ c, (point ++ tail).head? = some c → c.isDigit = false := by
    rw [hpoint, htail]
    split <;> simp
  have hpow : (10 : ℚ) ^ d.exponent = 10 ^ (n - 1) / 10 ^ (digits.length - 1) := by
    have hexp : d.exponent = (n - 1) - (digits.length - 1 : ℕ) := by omega
    rw [hexp, zpow_sub₀ (by norm_num), zpow_natCast]
  rw [← hpoint, htext, readMagnitude_append (by simp [hne])
    (fun c hc => hall c (List.mem_of_mem_take hc)) (Or.inl (by rw [List.length_take]; omega))
    hplain hfraction (htail ▸ readExponent_signed (n - 1) hrest), ofDigitChars_split, hvalue,
    Decimal.value, List.length_drop, hpow]
  ring_nf

/-! ### Signs -/

theorem roundEven_neg (q : ℚ) : roundEven (-q) = -roundEven q := by
  by_cases hq : q = ⌊q⌋
  · -- a whole number is itself
    have hround : ∀ m : ℤ, roundEven m = m := by
      intro m
      simp [roundEven]
    have hneg : -q = ((-⌊q⌋ : ℤ) : ℚ) := by
      push_cast
      rw [← hq]
    rw [hneg, hround, hq, hround, Int.floor_intCast]
  · have hlt : (⌊q⌋ : ℚ) < q := lt_of_le_of_ne (Int.floor_le q) (Ne.symm hq)
    have hlt' := Int.lt_floor_add_one q
    have hfloor : ⌊-q⌋ = -⌊q⌋ - 1 := by
      rw [Int.floor_eq_iff]
      push_cast
      constructor <;> linarith
    unfold roundEven
    rw [hfloor]
    push_cast
    obtain ⟨m, hm⟩ : ∃ m, m = ⌊q⌋ := ⟨_, rfl⟩
    rw [← hm] at hlt hlt' ⊢
    split_ifs <;> first | omega | (exfalso; linarith)

theorem nearest_neg (q : ℚ) : nearest (-q) = (nearest q).map fun x => -x := by
  have hplace : lastPlace (-q) = lastPlace q := by
    unfold lastPlace
    rw [abs_neg]
  simp only [nearest]
  rw [hplace, neg_div, roundEven_neg]
  push_cast
  rw [neg_mul, abs_neg]
  split <;> rfl

theorem nearest_zero : nearest 0 = some 0 := by
  simp [nearest, roundEven]

/-- **The text of a number is read as a decimal that rounds to it.** -/
theorem readNumber_numberText (hx : nearest x = some x) :
    ∃ q, nearest q = some x ∧
      ∀ rest, Ends rest → readNumber (numberText x ++ rest) = some (q, rest) := by
  rcases lt_trichotomy x 0 with hneg | rfl | hpos
  · -- the magnitude is written behind the sign
    have hopp : nearest (-x) = some (-x) := by rw [nearest_neg, hx, Option.map_some]
    obtain ⟨d, hd, hround, hdigits⟩ := nearest_shortest hopp (by linarith)
    refine ⟨-d.value, by rw [nearest_neg, hround, Option.map_some, neg_neg], fun rest hrest => ?_⟩
    have htext : numberText x = '-' :: d.text := by
      unfold numberText
      rw [if_neg hneg.ne, if_pos hneg, hd]
      rfl
    rw [htext, readNumber, List.cons_append, List.head?_cons, if_pos rfl, List.drop_one,
      List.tail_cons, readMagnitude_text hdigits hrest]
    rfl
  · refine ⟨0, nearest_zero, fun rest hrest => ?_⟩
    have hzero := readMagnitude_toDigits 0 hrest
    rw [Nat.toDigits_zero] at hzero
    have htext : numberText 0 = ['0'] := by
      unfold numberText
      rw [if_pos rfl]
    rw [htext, readNumber, List.singleton_append, List.head?_cons, if_neg (by decide)]
    exact_mod_cast hzero
  · obtain ⟨d, hd, hround, hdigits⟩ := nearest_shortest hx hpos
    refine ⟨d.value, hround, fun rest hrest => ?_⟩
    have htext : numberText x = d.text := by
      unfold numberText
      rw [if_neg hpos.ne', if_neg (not_lt.mpr hpos.le), hd]
      rfl
    have hminus : (d.text ++ rest).head? ≠ some '-' := by
      intro hhead
      have hread := readMagnitude_text hdigits hrest
      obtain ⟨tail, htail⟩ : ∃ tail, d.text ++ rest = '-' :: tail := by
        cases hl : d.text ++ rest with
        | nil => simp [hl] at hhead
        | cons c tail =>
          rw [hl] at hhead
          cases hhead
          exact ⟨tail, rfl⟩
      rw [htail] at hread
      simp [readMagnitude, readDigits] at hread
    rw [htext, readNumber, if_neg hminus, readMagnitude_text hdigits hrest]

theorem head_of_readNumber {text : List Char} {r : ℚ × List Char}
    (h : readNumber text = some r) : ∃ c cs, text = c :: cs ∧ (c = '-' ∨ c.isDigit = true) := by
  cases text with
  | nil => simp [readNumber, readMagnitude, readDigits] at h
  | cons c cs =>
    refine ⟨c, cs, rfl, ?_⟩
    by_cases hminus : c = '-'
    · exact Or.inl hminus
    · right
      by_contra hdigit
      have hsign : ¬(c :: cs).head? = some '-' := by simpa using hminus
      rw [readNumber, if_neg hsign] at h
      simp [readMagnitude, readDigits, hdigit] at h

theorem head_numberText (hx : nearest x = some x) :
    ∃ c cs, numberText x = c :: cs ∧ (c = '-' ∨ c.isDigit = true) := by
  obtain ⟨q, -, hread⟩ := readNumber_numberText hx
  have h := hread [] (by intro c hc; cases hc)
  rw [List.append_nil] at h
  exact head_of_readNumber h

end Takoserver
