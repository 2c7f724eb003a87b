import Takoserver.Json
import Takoserver.Text

/-!
# JSON text

`JSON.parse`, and `JSON.stringify` of the flat objects and the lists of texts
the program writes, on texts as their code points.  A text that would denote a
string with an unpaired surrogate has no value here, and numbers are read
exactly.
-/

namespace Takoserver.JsonText

/-! ### Reading -/

/-- The blanks of JSON. -/
def whitespace (c : Char) : Bool := c = ' ' || c = '\t' || c = '\n' || c = '\r'

/-- What follows the blanks. -/
def skip (text : List Char) : List Char := text.dropWhile whitespace

/-- The value of a hexadecimal digit. -/
def hexValue (c : Char) : Option ℕ :=
  if c.isDigit then some (c.toNat - '0'.toNat)
  else if 'a' ≤ c ∧ c ≤ 'f' then some (c.toNat - 'a'.toNat + 10)
  else if 'A' ≤ c ∧ c ≤ 'F' then some (c.toNat - 'A'.toNat + 10)
  else none

/-- The code unit of four hexadecimal digits, and what follows them. -/
def codeUnit : List Char → Option (ℕ × List Char)
  | a :: b :: c :: d :: rest => do
    let a ← hexValue a
    let b ← hexValue b
    let c ← hexValue c
    let d ← hexValue d
    return (((a * 16 + b) * 16 + c) * 16 + d, rest)
  | _ => none

/-- The code point of a `\u` escape, which may take a second one for its low surrogate. -/
def unicodeEscape (text : List Char) : Option (Char × List Char) := do
  let (high, rest) ← codeUnit text
  if high < 0xd800 ∨ 0xdfff < high then return (Char.ofNat high, rest)
  else if high ≤ 0xdbff ∧ rest.take 2 = ['\\', 'u'] then
    let (low, rest) ← codeUnit (rest.drop 2)
    if 0xdc00 ≤ low ∧ low ≤ 0xdfff then
      return (Char.ofNat (0x10000 + (high - 0xd800) * 0x400 + (low - 0xdc00)), rest)
    else none
  else none

/-- What an escape stands for, after its backslash. -/
def escaped : List Char → Option (Char × List Char)
  | [] => none
  | c :: rest =>
    if c = '"' ∨ c = '\\' ∨ c = '/' then some (c, rest)
    else if c = 'n' then some ('\n', rest)
    else if c = 'r' then some ('\r', rest)
    else if c = 't' then some ('\t', rest)
    else if c = 'b' then some ('\x08', rest)
    else if c = 'f' then some ('\x0c', rest)
    else if c = 'u' then unicodeEscape rest
    else none

/-- The code points of a string after its opening quote, and what follows its closing one. -/
def readText : ℕ → List Char → Option (List Char × List Char)
  | 0, _ | _, [] => none
  | fuel + 1, c :: rest =>
    if c = '"' then some ([], rest)
    else if c = '\\' then
      (escaped rest).bind fun (c, rest) =>
        (readText fuel rest).map fun (cs, rest) => (c :: cs, rest)
    else if c.toNat < 0x20 then none
    else (readText fuel rest).map fun (cs, rest) => (c :: cs, rest)

/-- The digits a text starts with, of which there must be one, and what follows them. -/
def readDigits (text : List Char) : Option (List Char × List Char) :=
  let digits := text.takeWhile Char.isDigit
  if digits = [] then none else some (digits, text.dropWhile Char.isDigit)

/-- `.` and digits, or nothing. -/
def readFraction : List Char → Option (ℚ × List Char)
  | '.' :: rest => do
    let (digits, rest) ← readDigits rest
    return ((Nat.ofDigitChars 10 digits 0 : ℚ) / 10 ^ digits.length, rest)
  | rest => some (0, rest)

/-- `e` or `E`, a sign and digits, or nothing: the power of ten. -/
def readExponent : List Char → Option (ℤ × List Char)
  | [] => some (0, [])
  | c :: rest =>
    if c = 'e' ∨ c = 'E' then
      match rest with
      | '-' :: rest => (readDigits rest).map fun (digits, rest) =>
          (-(Nat.ofDigitChars 10 digits 0 : ℤ), rest)
      | '+' :: rest => (readDigits rest).map fun (digits, rest) =>
          ((Nat.ofDigitChars 10 digits 0 : ℤ), rest)
      | rest => (readDigits rest).map fun (digits, rest) =>
          ((Nat.ofDigitChars 10 digits 0 : ℤ), rest)
    else some (0, c :: rest)

/-- A number without its sign. -/
def readMagnitude (text : List Char) : Option (ℚ × List Char) := do
  let (digits, rest) ← readDigits text
  if 1 < digits.length ∧ digits.head? = some '0' then none
  else
    let (fraction, rest) ← readFraction rest
    let (exponent, rest) ← readExponent rest
    return ((Nat.ofDigitChars 10 digits 0 + fraction) * 10 ^ exponent, rest)

/-- A number, its value and what follows. -/
def readNumber (text : List Char) : Option (ℚ × List Char) :=
  if text.head? = some '-' then
    (readMagnitude (text.drop 1)).map fun (n, rest) => (-n, rest)
  else readMagnitude text

/-- What follows an expected piece of text. -/
def expect (piece text : List Char) : Option (List Char) :=
  if piece.isPrefixOf text then some (text.drop piece.length) else none

/-- A member of an object: a name that is there already takes the later value. -/
def setMember (name : String) (member : Json) (members : List (String × Json)) :
    List (String × Json) :=
  if members.any (·.1 = name) then
    members.map fun m => if m.1 = name then (name, member) else m
  else members ++ [(name, member)]

mutual

/-- A value; the fuel bounds how much follows. -/
def readValue : ℕ → List Char → Option (Json × List Char)
  | 0, _ => none
  | fuel + 1, text =>
    match skip text with
    | [] => none
    | c :: rest =>
      if c = '"' then (readText (rest.length + 1) rest).map fun (cs, rest) =>
        (.str (String.ofList cs), rest)
      else if c = '[' then
        if (skip rest).head? = some ']' then some (.arr [], (skip rest).drop 1)
        else (readItems fuel rest).map fun (items, rest) => (.arr items, rest)
      else if c = '\x7b' then
        if (skip rest).head? = some '\x7d' then some (.obj [], (skip rest).drop 1)
        else (readMembers fuel [] rest).map fun (members, rest) => (.obj members, rest)
      else if c = 't' then (expect ['r', 'u', 'e'] rest).map fun rest => (.bool true, rest)
      else if c = 'f' then (expect ['a', 'l', 's', 'e'] rest).map fun rest => (.bool false, rest)
      else if c = 'n' then (expect ['u', 'l', 'l'] rest).map fun rest => (.null, rest)
      else (readNumber (c :: rest)).map fun (n, rest) => (.num n, rest)

/-- The items of an array up to its end. -/
def readItems : ℕ → List Char → Option (List Json × List Char)
  | 0, _ => none
  | fuel + 1, text =>
    (readValue fuel text).bind fun (item, rest) =>
      match skip rest with
      | [] => none
      | c :: rest =>
        if c = ',' then (readItems fuel rest).map fun (items, rest) => (item :: items, rest)
        else if c = ']' then some ([item], rest)
        else none

/-- The members of an object up to its end, after those that were read. -/
def readMembers : ℕ → List (String × Json) → List Char →
    Option (List (String × Json) × List Char)
  | 0, _, _ => none
  | fuel + 1, members, text =>
    (expect ['"'] (skip text)).bind fun rest =>
    (readText (rest.length + 1) rest).bind fun (name, rest) =>
    (expect [':'] (skip rest)).bind fun rest =>
    (readValue fuel rest).bind fun (member, rest) =>
      match skip rest with
      | [] => none
      | c :: rest =>
        let members := setMember (String.ofList name) member members
        if c = ',' then readMembers fuel members rest
        else if c = '\x7d' then some (members, rest)
        else none

end

/-- `JSON.parse`; `none` where it throws. -/
def parse (text : List Char) : Option Json :=
  (readValue (2 * text.length + 2) text).bind fun (value, rest) =>
    if skip rest = [] then some value else none

/-! ### Writing -/

/-- A code point of a string as `JSON.stringify` writes it. -/
def escape (c : Char) : List Char :=
  if c = '"' then ['\\', '"']
  else if c = '\\' then ['\\', '\\']
  else if c = '\n' then ['\\', 'n']
  else if c = '\r' then ['\\', 'r']
  else if c = '\t' then ['\\', 't']
  else if c = '\x08' then ['\\', 'b']
  else if c = '\x0c' then ['\\', 'f']
  else if c.toNat < 0x20 then
    ['\\', 'u', '0', '0', Nat.digitChar (c.toNat / 16), Nat.digitChar (c.toNat % 16)]
  else [c]

/-- A string as JSON. -/
def quote (s : String) : List Char := '"' :: s.toList.flatMap escape ++ ['"']

/-- A member of the flat objects the program writes. -/
inductive Scalar where
  | text (s : String)
  | flag (b : Bool)
  | whole (n : ℕ)

/-- The scalar as a value. -/
def Scalar.json : Scalar → Json
  | .text s => .str s
  | .flag b => .bool b
  | .whole n => .num n

/-- The scalar as text. -/
def Scalar.write : Scalar → List Char
  | .text s => quote s
  | .flag true => ['t', 'r', 'u', 'e']
  | .flag false => ['f', 'a', 'l', 's', 'e']
  | .whole n => Nat.toDigits 10 n

/-- The members of an object, comma separated. -/
def writeMembers : List (String × Scalar) → List Char
  | [] => []
  | [(name, member)] => quote name ++ ':' :: member.write
  | (name, member) :: members => quote name ++ ':' :: member.write ++ ',' :: writeMembers members

/-- `JSON.stringify` of an object. -/
def stringify (members : List (String × Scalar)) : List Char :=
  '\x7b' :: writeMembers members ++ ['\x7d']

/-- The items of an array, comma separated. -/
def writeTexts : List String → List Char
  | [] => []
  | [s] => quote s
  | s :: texts => quote s ++ ',' :: writeTexts texts

/-- `JSON.stringify` of a list of texts. -/
def stringifyTexts (texts : List String) : List Char := '[' :: writeTexts texts ++ [']']

/-! ### What is written is no shorter -/

theorem length_le_quote (s : String) : s.toList.length ≤ (quote s).length := by
  have hflat : ∀ points : List Char, points.length ≤ (points.flatMap escape).length := by
    intro points
    induction points with
    | nil => exact le_rfl
    | cons c =>
      have hc : 0 < (escape c).length := by
        unfold escape
        split_ifs <;> exact Nat.succ_pos _
      rw [List.flatMap_cons, List.length_append, List.length_cons]
      omega
  have := hflat s.toList
  simp only [quote, List.cons_append, List.length_cons, List.length_append]
  omega

variable {members : List (String × Scalar)} {rest : List Char} {c : Char} {texts : List String}

/-- An object is no shorter than a text it holds. -/
theorem length_le_stringify {name s : String} (h : (name, Scalar.text s) ∈ members) :
    s.toList.length ≤ (stringify members).length := by
  have hmembers : s.toList.length ≤ (writeMembers members).length := by
    have hquote := length_le_quote s
    induction members using writeMembers.induct with
    | case1 => cases h
    | case2 =>
      rw [writeMembers]
      cases List.mem_singleton.mp h
      simp only [List.length_append, List.length_cons, Scalar.write]
      omega
    | case3 _ _ _ hne ih =>
      rw [writeMembers]
      · rcases List.mem_cons.mp h with h | h
        · cases h
          simp only [List.length_append, List.length_cons, Scalar.write]
          omega
        · have := ih h
          simp only [List.length_append, List.length_cons]
          omega
      · exact hne
  simp only [stringify, List.cons_append, List.length_cons, List.length_append]
  omega

/-! ### Strings are read back -/

theorem hexValue_digitChar : ∀ n < 16, hexValue (Nat.digitChar n) = some n := by decide

theorem escape_ne_nil (c : Char) : escape c ≠ [] := by
  unfold escape
  split_ifs <;> simp

theorem readText_escape (fuel : ℕ) (c : Char) (rest : List Char) :
    readText (fuel + 1) (escape c ++ rest) =
      (readText fuel rest).map fun (cs, rest) => (c :: cs, rest) := by
  by_cases hquote : c = '"'
  · subst hquote
    simp [escape, readText, escaped]
  by_cases hslash : c = '\\'
  · subst hslash
    simp [escape, readText, escaped]
  by_cases hn : c = '\n'
  · subst hn
    simp [escape, readText, escaped]
  by_cases hr : c = '\r'
  · subst hr
    simp [escape, readText, escaped]
  by_cases ht : c = '\t'
  · subst ht
    simp [escape, readText, escaped]
  by_cases hb : c = '\x08'
  · subst hb
    simp [escape, readText, escaped]
  by_cases hf : c = '\x0c'
  · subst hf
    simp [escape, readText, escaped]
  unfold escape
  rw [if_neg hquote, if_neg hslash, if_neg hn, if_neg hr, if_neg ht, if_neg hb, if_neg hf]
  split
  · next =>
    -- the two last digits of the escape are those of the code point
    have hhigh := hexValue_digitChar (c.toNat / 16) (by omega)
    have hlow := hexValue_digitChar (c.toNat % 16) (by omega)
    have hzero : hexValue '0' = some 0 := rfl
    have hunit : ((0 * 16 + 0) * 16 + c.toNat / 16) * 16 + c.toNat % 16 = c.toNat := by omega
    have hescape : escaped ('u' :: '0' :: '0' :: Nat.digitChar (c.toNat / 16) ::
        Nat.digitChar (c.toNat % 16) :: rest) = some (c, rest) := by
      have hcode : codeUnit ('0' :: '0' :: Nat.digitChar (c.toNat / 16) ::
          Nat.digitChar (c.toNat % 16) :: rest) = some (c.toNat, rest) := by
        simp only [codeUnit, hzero, hhigh, hlow, Option.bind_eq_bind, Option.bind_some,
          Option.pure_def, hunit]
      have hsmall : c.toNat < 0xd800 ∨ 0xdfff < c.toNat := by omega
      simp [escaped, unicodeEscape, hcode, hsmall, Char.ofNat_toNat]
    simp only [List.cons_append, List.nil_append]
    rw [readText, if_neg (by decide), if_pos rfl, hescape, Option.bind_some]
  · next hplain =>
    simp only [List.cons_append, List.nil_append]
    rw [readText, if_neg hquote, if_neg hslash, if_neg hplain]

theorem readText_flatMap {fuel : ℕ} {cs : List Char} (rest : List Char) (h : cs.length < fuel) :
    readText fuel (cs.flatMap escape ++ '"' :: rest) = some (cs, rest) := by
  induction cs generalizing fuel with
  | nil =>
    obtain ⟨fuel, rfl⟩ := Nat.exists_eq_succ_of_ne_zero (by omega : fuel ≠ 0)
    simp [readText]
  | cons c cs ih =>
    obtain ⟨fuel, rfl⟩ := Nat.exists_eq_succ_of_ne_zero (by omega : fuel ≠ 0)
    rw [List.length_cons] at h
    rw [List.flatMap_cons, List.append_assoc, readText_escape, ih (by omega)]
    rfl

theorem length_le_flatMap_escape (cs : List Char) : cs.length ≤ (cs.flatMap escape).length := by
  induction cs with
  | nil => simp
  | cons c =>
    have hpos := List.length_pos_iff.mpr (escape_ne_nil c)
    rw [List.flatMap_cons, List.length_append, List.length_cons]
    omega

theorem readText_quoted (s : String) (rest : List Char) :
    let body := s.toList.flatMap escape ++ '"' :: rest
    readText (body.length + 1) body = some (s.toList, rest) := by
  intro body
  refine readText_flatMap rest ?_
  have hle := length_le_flatMap_escape s.toList
  have hbody : body.length = (s.toList.flatMap escape).length + (rest.length + 1) := by
    simp [body]
  omega

theorem quote_append (s : String) (rest : List Char) :
    quote s ++ rest = '"' :: (s.toList.flatMap escape ++ '"' :: rest) := by
  simp [quote]

/-! ### Scalars are read back -/

/-- What may follow a number: no digit, fraction or exponent. -/
def Ends (rest : List Char) : Prop :=
  ∀ c, rest.head? = some c → c.isDigit = false ∧ c ≠ '.' ∧ c ≠ 'e' ∧ c ≠ 'E'

theorem ends_comma (rest : List Char) : Ends (',' :: rest) := by
  intro c hc
  cases hc
  decide

theorem ends_brace (rest : List Char) : Ends ('\x7d' :: rest) := by
  intro c hc
  cases hc
  decide

/-- A decimal expansion of more than one digit does not start with zero. -/
theorem head_toDigits (n : ℕ) (h : 10 ≤ n) : (Nat.toDigits 10 n).head? ≠ some '0' := by
  induction n using Nat.strong_induction_on with
  | _ n ih =>
    rw [Nat.toDigits_of_base_le (by decide) h,
      List.head?_append_of_ne_nil _ Nat.toDigits_ne_nil]
    by_cases hsmall : n / 10 < 10
    · rw [Nat.toDigits_of_lt_base hsmall]
      intro heq
      have hzero : n / 10 = 0 := by
        have hchar := Option.some.inj heq
        have hall : ∀ d < 10, Nat.digitChar d = '0' → d = 0 := by decide
        exact hall _ hsmall hchar
      omega
    · exact ih (n / 10) (by omega) (by omega)

theorem readMagnitude_toDigits (n : ℕ) (hrest : Ends rest) :
    readMagnitude (Nat.toDigits 10 n ++ rest) = some ((n : ℚ), rest) := by
  have hdigits : ∀ c ∈ Nat.toDigits 10 n, c.isDigit = true := fun c hc =>
    Nat.isDigit_of_mem_toDigits (by decide) (by decide) hc
  have hstop : rest.takeWhile Char.isDigit = [] ∧ rest.dropWhile Char.isDigit = rest := by
    cases rest with
    | nil => exact ⟨rfl, rfl⟩
    | cons c cs =>
      have hc := (hrest c rfl).1
      simp [hc]
  have hread : readDigits (Nat.toDigits 10 n ++ rest) = some (Nat.toDigits 10 n, rest) := by
    unfold readDigits
    rw [List.takeWhile_append_of_pos hdigits, List.dropWhile_append_of_pos hdigits, hstop.1,
      hstop.2, List.append_nil]
    simp [Nat.toDigits_ne_nil]
  have hhead : ¬(1 < (Nat.toDigits 10 n).length ∧ (Nat.toDigits 10 n).head? = some '0') := by
    rintro ⟨hlong, hzero⟩
    by_cases h : 10 ≤ n
    · exact head_toDigits n h hzero
    · rw [Nat.toDigits_of_lt_base (by omega)] at hlong
      simp at hlong
  have hfraction : readFraction rest = some (0, rest) := by
    cases rest with
    | nil => rfl
    | cons c cs =>
      have hc := (hrest c rfl).2.1
      unfold readFraction
      split
      · next heq => exact absurd (List.cons.inj heq).1 hc
      · rfl
  have hexponent : readExponent rest = some (0, rest) := by
    cases rest with
    | nil => rfl
    | cons c cs =>
      obtain ⟨-, -, he, hE⟩ := hrest c rfl
      simp [readExponent, he, hE]
  unfold readMagnitude
  rw [hread]
  simp [hhead, hfraction, hexponent]

theorem skip_cons (h : whitespace c = false) (rest : List Char) :
    skip (c :: rest) = c :: rest := by
  simp [skip, h]

theorem isDigit_plain (h : c.isDigit = true) :
    whitespace c = false ∧ c ≠ '"' ∧ c ≠ '[' ∧ c ≠ '\x7b' ∧ c ≠ 't' ∧ c ≠ 'f' ∧ c ≠ 'n' ∧
      c ≠ '-' := by
  refine ⟨?_, ?_, ?_, ?_, ?_, ?_, ?_, ?_⟩
  · rw [Bool.eq_false_iff]
    intro hc
    simp only [whitespace, Bool.or_eq_true, decide_eq_true_eq] at hc
    rcases hc with ((rfl | rfl) | rfl) | rfl <;> revert h <;> decide
  all_goals
    rintro rfl
    revert h
    decide

/-- **A scalar is read back** from its text. -/
theorem readValue_write (fuel : ℕ) (v : Scalar) (hrest : Ends rest) :
    readValue (fuel + 1) (v.write ++ rest) = some (v.json, rest) := by
  cases v with
  | text s =>
    have hquote : whitespace '"' = false := rfl
    rw [Scalar.write, quote_append, readValue, skip_cons hquote]
    simp only [if_true]
    rw [readText_quoted]
    simp [Scalar.json]
  | flag b =>
    cases b with
    | true =>
      have ht : whitespace 't' = false := rfl
      rw [Scalar.write, List.cons_append, readValue, skip_cons ht]
      simp [expect, Scalar.json]
    | false =>
      have hf : whitespace 'f' = false := rfl
      rw [Scalar.write, List.cons_append, readValue, skip_cons hf]
      simp [expect, Scalar.json]
  | whole n =>
    cases hdigits : Nat.toDigits 10 n with
    | nil => exact absurd hdigits Nat.toDigits_ne_nil
    | cons c cs =>
      have hc : c.isDigit = true := by
        refine Nat.isDigit_of_mem_toDigits (b := 10) (n := n) (by decide) (by decide) ?_
        rw [hdigits]
        exact List.mem_cons_self
      obtain ⟨hspace, hquote, hbracket, hbrace, ht, hf, hn, hminus⟩ := isDigit_plain hc
      have hread := readMagnitude_toDigits n hrest
      rw [hdigits, List.cons_append] at hread
      rw [Scalar.write, hdigits, List.cons_append, readValue, skip_cons hspace]
      simp only [hquote, hbracket, hbrace, ht, hf, hn, if_false]
      unfold readNumber
      rw [List.head?_cons, if_neg (by simpa using hminus), hread]
      rfl

/-! ### Objects and lists are read back -/

theorem expect_cons (c : Char) (rest : List Char) : expect [c] (c :: rest) = some rest := by
  simp [expect]

theorem setMember_fresh {name : String} {member : Json} {members : List (String × Json)}
    (h : ∀ m ∈ members, m.1 ≠ name) : setMember name member members = members ++ [(name, member)] := by
  have hnone : ¬members.any (·.1 = name) = true := by
    rw [List.any_eq_true]
    rintro ⟨m, hm, heq⟩
    exact h m hm (of_decide_eq_true heq)
  rw [setMember, if_neg hnone]

theorem readMember (fuel : ℕ) (members : List (String × Json)) (name : String) (v : Scalar)
    (hrest : Ends rest) {cs : List Char} (hc : rest = c :: cs) (hspace : whitespace c = false) :
    readMembers (fuel + 2) members (quote name ++ ':' :: v.write ++ rest) =
      if c = ',' then readMembers (fuel + 1) (setMember name v.json members) cs
      else if c = '\x7d' then some (setMember name v.json members, cs) else none := by
  have hquote : whitespace '"' = false := rfl
  have hcolon : whitespace ':' = false := rfl
  have htext : quote name ++ ':' :: v.write ++ rest =
      '"' :: (name.toList.flatMap escape ++ '"' :: ':' :: (v.write ++ rest)) := by
    simp [quote]
  rw [htext, readMembers, skip_cons hquote, expect_cons, Option.bind_some, readText_quoted,
    Option.bind_some]
  simp only
  rw [skip_cons hcolon, expect_cons, Option.bind_some, readValue_write fuel v hrest,
    Option.bind_some, hc]
  rw [skip_cons hspace, String.ofList_toList]

theorem readMembers_write (fuel : ℕ) (written : List (String × Scalar))
    (members : List (String × Json)) (rest : List Char) (hne : written ≠ [])
    (hnames : (members.map Prod.fst ++ written.map Prod.fst).Nodup)
    (hfuel : written.length < fuel) :
    readMembers fuel members (writeMembers written ++ '\x7d' :: rest) =
      some (members ++ written.map fun m => (m.1, m.2.json), rest) := by
  induction written generalizing fuel members with
  | nil => exact absurd rfl hne
  | cons m written ih =>
    obtain ⟨name, v⟩ := m
    obtain ⟨fuel, rfl⟩ : ∃ k, fuel = k + 2 := ⟨fuel - 2, by simp at hfuel; omega⟩
    have hfresh : setMember name v.json members = members ++ [(name, v.json)] := by
      refine setMember_fresh fun m hm heq => ?_
      rw [List.map_cons, List.nodup_append] at hnames
      refine hnames.2.2 m.1 (List.mem_map_of_mem hm) name List.mem_cons_self heq
    cases written with
    | nil =>
      have hbrace : whitespace '\x7d' = false := rfl
      rw [writeMembers, readMember fuel members name v (ends_brace rest) rfl hbrace, hfresh]
      simp
    | cons m' written =>
      have hcomma : whitespace ',' = false := rfl
      have htext : writeMembers ((name, v) :: m' :: written) ++ '\x7d' :: rest =
          quote name ++ ':' :: v.write ++
            (',' :: (writeMembers (m' :: written) ++ '\x7d' :: rest)) := by
        simp [writeMembers]
      rw [htext, readMember fuel members name v (ends_comma _) rfl hcomma, if_pos rfl, hfresh,
        ih (fuel + 1) (members ++ [(name, v.json)]) (by simp) (by simpa using hnames)
          (by simp at hfuel ⊢; omega)]
      simp

theorem length_quote (s : String) : 2 ≤ (quote s).length := by
  simp [quote]

theorem length_writeMembers (members : List (String × Scalar)) :
    members.length ≤ (writeMembers members).length := by
  induction members with
  | nil => simp
  | cons m members ih =>
    obtain ⟨_, v⟩ := m
    cases members with
    | nil =>
      simp only [writeMembers, List.length_append, List.length_cons, List.length_nil]
      omega
    | cons =>
      simp only [writeMembers, List.length_append, List.length_cons] at ih ⊢
      omega

theorem head_writeMembers (hne : members ≠ []) :
    (writeMembers members).head? = some '"' := by
  cases members with
  | nil => exact absurd rfl hne
  | cons m members =>
    obtain ⟨_, v⟩ := m
    cases members <;> simp [writeMembers, quote]

/-- **A flat object is read back** from its text. -/
theorem parse_stringify (hne : members ≠ []) (hnames : (members.map Prod.fst).Nodup) :
    parse (stringify members) = some (.obj (members.map fun m => (m.1, m.2.json))) := by
  have hbrace : whitespace '\x7b' = false := rfl
  have hquote : whitespace '"' = false := rfl
  have hlength := length_writeMembers members
  have hread := readMembers_write (2 * (stringify members).length + 1) members [] [] hne
    (by simpa using hnames) (by simp only [stringify, List.length_append, List.length_cons]; omega)
  -- the object is not empty: after its brace stands the quote of a name
  have hhead : (skip (writeMembers members ++ ['\x7d'])).head? ≠ some '\x7d' := by
    cases hw : writeMembers members with
    | nil =>
      have := head_writeMembers hne
      rw [hw] at this
      cases this
    | cons c cs =>
      have hc := head_writeMembers hne
      rw [hw] at hc
      obtain rfl : c = '"' := Option.some.inj hc
      rw [List.cons_append, skip_cons hquote]
      simp
  have hvalue : readValue (2 * (stringify members).length + 2) (stringify members) =
      some (.obj (members.map fun m => (m.1, m.2.json)), []) := by
    have htext : stringify members = '\x7b' :: (writeMembers members ++ ['\x7d']) := by
      simp [stringify]
    rw [readValue]
    conv_lhs => rw [htext, skip_cons hbrace]
    simp only [Char.reduceEq, if_false, if_true]
    rw [if_neg hhead, ← htext, hread]
    rfl
  unfold parse
  rw [hvalue]
  rfl

theorem readItems_write (fuel : ℕ) (texts : List String) (rest : List Char) (hne : texts ≠ [])
    (hfuel : texts.length < fuel) :
    readItems fuel (writeTexts texts ++ ']' :: rest) = some (texts.map Json.str, rest) := by
  have hends : Ends (']' :: rest) := by
    intro c hc
    cases hc
    decide
  induction texts generalizing fuel with
  | nil => exact absurd rfl hne
  | cons s texts ih =>
    obtain ⟨fuel, rfl⟩ : ∃ k, fuel = k + 2 := ⟨fuel - 2, by simp at hfuel; omega⟩
    cases texts with
    | nil =>
      have hbracket : whitespace ']' = false := rfl
      have hvalue := readValue_write fuel (.text s) hends
      rw [Scalar.write] at hvalue
      rw [writeTexts, readItems, hvalue, Option.bind_some]
      simp only
      rw [skip_cons hbracket]
      simp [Scalar.json]
    | cons s' texts =>
      have hcomma : whitespace ',' = false := rfl
      have hvalue := readValue_write fuel (.text s)
        (ends_comma (writeTexts (s' :: texts) ++ ']' :: rest))
      rw [Scalar.write] at hvalue
      have htext : writeTexts (s :: s' :: texts) ++ ']' :: rest =
          quote s ++ ',' :: (writeTexts (s' :: texts) ++ ']' :: rest) := by
        simp [writeTexts]
      rw [htext, readItems, hvalue, Option.bind_some]
      simp only
      rw [skip_cons hcomma]
      simp only [if_true]
      rw [ih (fuel + 1) (by simp) (by simp at hfuel ⊢; omega)]
      simp [Scalar.json]

theorem length_writeTexts (texts : List String) : texts.length ≤ (writeTexts texts).length := by
  induction texts with
  | nil => simp
  | cons s texts ih =>
    have hquote := length_quote s
    cases texts with
    | nil =>
      simp only [writeTexts, List.length_cons, List.length_nil]
      omega
    | cons =>
      simp only [writeTexts, List.length_append, List.length_cons] at ih ⊢
      omega

theorem head_writeTexts (hne : texts ≠ []) :
    (writeTexts texts).head? = some '"' := by
  cases texts with
  | nil => exact absurd rfl hne
  | cons s texts => cases texts <;> simp [writeTexts, quote]

/-- **A list of texts is read back** from its text. -/
theorem parse_stringifyTexts (hne : texts ≠ []) :
    parse (stringifyTexts texts) = some (.arr (texts.map Json.str)) := by
  have hbracket : whitespace '[' = false := rfl
  have hquote : whitespace '"' = false := rfl
  have hlength := length_writeTexts texts
  have hread := readItems_write (2 * (stringifyTexts texts).length + 1) texts [] hne
    (by simp only [stringifyTexts, List.length_append, List.length_cons]; omega)
  have hhead : (skip (writeTexts texts ++ [']'])).head? ≠ some ']' := by
    cases hw : writeTexts texts with
    | nil =>
      have := head_writeTexts hne
      rw [hw] at this
      cases this
    | cons c cs =>
      have hc := head_writeTexts hne
      rw [hw] at hc
      obtain rfl : c = '"' := Option.some.inj hc
      rw [List.cons_append, skip_cons hquote]
      simp
  have hvalue : readValue (2 * (stringifyTexts texts).length + 2) (stringifyTexts texts) =
      some (.arr (texts.map Json.str), []) := by
    have htext : stringifyTexts texts = '[' :: (writeTexts texts ++ [']']) := by
      simp [stringifyTexts]
    rw [readValue]
    conv_lhs => rw [htext, skip_cons hbracket]
    simp only [Char.reduceEq, if_false, if_true]
    rw [if_neg hhead, ← htext, hread]
    rfl
  unfold parse
  rw [hvalue]
  rfl

theorem stringifyTexts_inj {texts' : List String} (hne : texts ≠ []) (hne' : texts' ≠ [])
    (h : stringifyTexts texts = stringifyTexts texts') : texts = texts' := by
  have hparse := parse_stringifyTexts hne
  rw [h, parse_stringifyTexts hne'] at hparse
  have hstrs := Json.arr.inj (Option.some.inj hparse)
  exact (List.map_injective_iff.mpr fun _ _ heq => Json.str.inj heq) hstrs.symm

end Takoserver.JsonText
