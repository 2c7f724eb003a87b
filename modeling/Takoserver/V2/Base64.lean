import Takoserver.V2.Seals

/-!
# Base64url round trips

Cursors travel as base64url text.  What is written is read back, whichever of
the platform's readers reads it, and the text has only letters, digits, `-` and
`_`.
-/

namespace Takoserver.V2

/-! ### Six bits at a time -/

theorem sextets_lt (bytes : List UInt8) : ∀ digit ∈ sextets bytes, digit < 64 := by
  fun_induction sextets bytes with
  | case1 => simp
  | case2 a =>
    have ha := a.toNat_lt
    simp only [List.mem_cons, List.not_mem_nil, or_false, forall_eq_or_imp, forall_eq]
    omega
  | case3 a b =>
    have ha := a.toNat_lt
    have hb := b.toNat_lt
    simp only [List.mem_cons, List.not_mem_nil, or_false, forall_eq_or_imp, forall_eq]
    omega
  | case4 a b c rest ih =>
    have ha := a.toNat_lt
    have hb := b.toNat_lt
    have hc := c.toNat_lt
    simp only [List.mem_cons, forall_eq_or_imp]
    refine ⟨?_, ?_, ?_, ?_, ih⟩ <;> omega

theorem byte_eq {a : UInt8} {n : ℕ} (h : n = a.toNat) : UInt8.ofNat n = a := by
  rw [h, UInt8.ofNat_toNat]

theorem octets_sextets (bytes : List UInt8) : octets (sextets bytes) = bytes := by
  fun_induction sextets bytes with
  | case1 => rfl
  | case2 a =>
    simp only [octets]
    rw [byte_eq (a := a) (by omega)]
  | case3 a b =>
    have hb := b.toNat_lt
    simp only [octets]
    rw [byte_eq (a := a) (by omega), byte_eq (a := b) (by omega)]
  | case4 a b c rest ih =>
    have hb := b.toNat_lt
    have hc := c.toNat_lt
    simp only [octets]
    rw [byte_eq (a := a) (by omega), byte_eq (a := b) (by omega), byte_eq (a := c) (by omega), ih]

theorem sextets_length (bytes : List UInt8) :
    (sextets bytes).length = bytes.length / 3 * 4 + (if bytes.length % 3 = 0 then 0
      else bytes.length % 3 + 1) := by
  fun_induction sextets bytes with
  | case1 => rfl
  | case2 a => simp
  | case3 a b => simp
  | case4 a b c rest ih =>
    have hdiv : (rest.length + 1 + 1 + 1) / 3 = rest.length / 3 + 1 := by omega
    have hmod : (rest.length + 1 + 1 + 1) % 3 = rest.length % 3 := by omega
    simp only [List.length_cons, ih, hdiv, hmod]
    omega

/-! ### Digits -/

/-- `/^[A-Za-z0-9_-]$/`. -/
def base64urlChar (c : Char) : Bool := c.isAlphanum || c = '-' || c = '_'

theorem base64urlChar_digit : ∀ digit < 64, base64urlChar (base64Digits.getD digit 'A') = true := by
  decide +kernel

theorem findIdx_digit :
    ∀ digit < 64, base64Digits.findIdx? (· == base64Digits.getD digit 'A') = some digit := by
  decide +kernel

/-- The digits of a text; none where a character is not one. -/
def readDigits (text : List Char) : Option (List ℕ) :=
  text.mapM fun c => base64Digits.findIdx? (· == c)

theorem readDigits_map {digits : List ℕ} (h : ∀ digit ∈ digits, digit < 64) :
    readDigits (digits.map fun digit => base64Digits.getD digit 'A') = some digits := by
  induction digits with
  | nil => rfl
  | cons digit _ ih =>
    have hdigit := findIdx_digit digit (h digit List.mem_cons_self)
    have hdigits := ih fun d hd => h d (List.mem_cons_of_mem _ hd)
    unfold readDigits at hdigits ⊢
    rw [List.map_cons, List.mapM_cons, hdigit, hdigits]
    rfl

theorem encode_toList (bytes : List UInt8) :
    (encode bytes).toList = (sextets bytes).map fun digit => base64Digits.getD digit 'A' := by
  rw [encode, String.toList_ofList]

theorem encode_chars (bytes : List UInt8) : ∀ c ∈ (encode bytes).toList, base64urlChar c = true := by
  rw [encode_toList]
  intro c hc
  obtain ⟨digit, hdigit, rfl⟩ := List.mem_map.mp hc
  exact base64urlChar_digit digit (sextets_lt bytes digit hdigit)

/-- **What was written is read back** from the digits of the text. -/
theorem readDigits_encode (bytes : List UInt8) :
    (readDigits (encode bytes).toList).map octets = some bytes := by
  rw [encode_toList, readDigits_map (sextets_lt bytes), Option.map_some, octets_sextets]

/-! ### With padding -/

theorem base64urlChar_plain {c : Char} (h : base64urlChar c = true) :
    c ≠ '+' ∧ c ≠ '/' ∧ c ≠ '=' ∧ ['\t', '\n', '\x0c', '\r', ' '].contains c = false := by
  refine ⟨?_, ?_, ?_, ?_⟩
  · rintro rfl
    revert h
    decide
  · rintro rfl
    revert h
    decide
  · rintro rfl
    revert h
    decide
  · rw [Bool.eq_false_iff]
    intro hc
    simp only [List.contains_eq_mem, decide_eq_true_eq, List.mem_cons, List.not_mem_nil,
      or_false] at hc
    rcases hc with rfl | rfl | rfl | rfl | rfl <;> revert h <;> decide

theorem unpad_padded {text : List Char} (hplain : '=' ∉ text) (hlength : text.length % 4 ≠ 1) :
    let padded := text ++ List.replicate ((4 - text.length % 4) % 4) '='
    (if padded.length % 4 = 0 then
      if padded.drop (padded.length - 2) = ['=', '='] then padded.take (padded.length - 2)
      else if padded.drop (padded.length - 1) = ['='] then padded.take (padded.length - 1)
      else padded
    else padded) = text := by
  intro padded
  have hnone : ∀ n pad, text.drop n ≠ '=' :: pad := by
    intro n pad h
    refine hplain (List.mem_of_mem_drop (i := n) ?_)
    rw [h]
    exact List.mem_cons_self
  have hwhole : padded.length % 4 = 0 := by
    simp only [padded, List.length_append, List.length_replicate]
    omega
  rw [if_pos hwhole]
  have hcases : text.length % 4 = 0 ∨ text.length % 4 = 2 ∨ text.length % 4 = 3 := by omega
  rcases hcases with h | h | h
  · have hpadded : padded = text := by simp [padded, h]
    rw [hpadded, if_neg (hnone _ _), if_neg (hnone _ _)]
  · have hpadded : padded = text ++ ['=', '='] := by simp [padded, h, List.replicate]
    have hlen : padded.length - 2 = text.length := by simp [hpadded]
    rw [hlen, hpadded, List.drop_left, if_pos rfl, List.take_left]
  have hpadded : padded = text ++ ['='] := by simp [padded, h]
  have hlen : padded.length - 1 = text.length := by simp [hpadded]
  have hlen₂ : padded.length - 2 = text.length - 1 := by simp [hpadded]
  have hlast : padded.drop (padded.length - 2) ≠ ['=', '='] := by
    intro heq
    rw [hlen₂, hpadded, List.drop_append_of_le_length (by omega)] at heq
    have hsplit : text.drop (text.length - 1) ++ ['='] = ['='] ++ ['='] := heq
    exact hnone _ _ (List.append_cancel_right hsplit)
  rw [if_neg hlast, hlen, hpadded, List.drop_left, if_pos rfl, List.take_left]

theorem atob_padded {text : List Char} (hchars : ∀ c ∈ text, base64urlChar c = true)
    (hlength : text.length % 4 ≠ 1) :
    atob (text ++ List.replicate ((4 - text.length % 4) % 4) '=') =
      (readDigits text).map octets := by
  have hkeep : ∀ c ∈ text ++ List.replicate ((4 - text.length % 4) % 4) '=',
      (!(['\t', '\n', '\x0c', '\r', ' '].contains c)) = true := by
    intro c hc
    rcases List.mem_append.mp hc with hc | hc
    · rw [(base64urlChar_plain (hchars c hc)).2.2.2]
      rfl
    · rw [List.eq_of_mem_replicate hc]
      decide
  have hplain : '=' ∉ text := fun hc => (base64urlChar_plain (hchars _ hc)).2.2.1 rfl
  unfold atob
  rw [List.filter_eq_self.mpr hkeep]
  dsimp only
  rw [unpad_padded hplain hlength, if_neg hlength]
  rfl

/-- **What was written is read back** by `atob`. -/
theorem decode_encode (bytes : List UInt8) : decode (encode bytes) = some bytes := by
  have hchars := encode_chars bytes
  have hmap : ((encode bytes).toList.map fun c =>
      if c = '+' then '-' else if c = '/' then '_' else c) = (encode bytes).toList := by
    refine (List.map_congr_left fun c hc => ?_).trans (List.map_id _)
    obtain ⟨hplus, hslash, -, -⟩ := base64urlChar_plain (hchars c hc)
    rw [if_neg hplus, if_neg hslash]
    rfl
  have hlength : (encode bytes).toList.length % 4 ≠ 1 := by
    rw [encode_toList, List.length_map, sextets_length]
    split <;> omega
  unfold decode
  rw [hmap, atob_padded hchars hlength]
  exact readDigits_encode bytes

/-! ### Lengths -/

theorem digit_unit : ∀ digit < 64,
    (if (base64Digits.getD digit 'A').toNat < 65536 then 1 else 2) = 1 := by
  decide +kernel

/-- A text of base64url digits has as many code units as digits. -/
theorem utf16Length_encode (bytes : List UInt8) :
    Text.utf16Length (encode bytes) = (sextets bytes).length := by
  have hunits : (sextets bytes).map (fun digit =>
      if (base64Digits.getD digit 'A').toNat < 65536 then 1 else 2) =
        (sextets bytes).map fun _ => 1 :=
    List.map_congr_left fun digit hdigit => digit_unit digit (sextets_lt bytes digit hdigit)
  unfold Text.utf16Length
  rw [encode_toList, List.map_map]
  rw [show (fun c : Char => if c.toNat < 65536 then 1 else 2) ∘
    (fun digit => base64Digits.getD digit 'A') = fun digit =>
      if (base64Digits.getD digit 'A').toNat < 65536 then 1 else 2 from rfl, hunits]
  simp

end Takoserver.V2
