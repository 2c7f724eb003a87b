import Takoserver.Numbers
import Takoserver.V2.Base64

/-!
# Canonical JSON

`src/json.ts`: JSON text with the names of each object sorted by their code units, and the
strict base64url beside it.  A document has members in some order; two documents are the
same value where they differ in that order only.
-/

namespace Takoserver

open JsonText

/-! ### Writing -/

/-- `join(",")`. -/
def joinComma : List (List Char) → List Char
  | [] => []
  | [text] => text
  | text :: texts => text ++ ',' :: joinComma texts

/-- A member of an object, written. -/
def memberText (m : String × List Char) : List Char := quote m.1 ++ ':' :: m.2

/-- Names in the order of `Array.prototype.sort`. -/
def sortByName {α : Type} (members : List (String × α)) : List (String × α) :=
  members.insertionSort fun a b => V2.codeUnits a.1 ≤ V2.codeUnits b.1

mutual

/-- `canonicalJson`. -/
def canonicalJson : Json → List Char
  | .null => ['n', 'u', 'l', 'l']
  | .bool true => ['t', 'r', 'u', 'e']
  | .bool false => ['f', 'a', 'l', 's', 'e']
  | .num n => numberText n
  | .str s => quote s
  | .arr items => '[' :: joinComma (canonicalItems items) ++ [']']
  | .obj members =>
    '\x7b' :: joinComma ((sortByName (canonicalMembers members)).map memberText) ++ ['\x7d']

/-- The texts of the items. -/
def canonicalItems : List Json → List (List Char)
  | [] => []
  | item :: items => canonicalJson item :: canonicalItems items

/-- The names with the texts of their members. -/
def canonicalMembers : List (String × Json) → List (String × List Char)
  | [] => []
  | (name, member) :: members => (name, canonicalJson member) :: canonicalMembers members

end

mutual

/-- `JSON.stringify`, with the members as they come. -/
def Json.write : Json → List Char
  | .null => ['n', 'u', 'l', 'l']
  | .bool true => ['t', 'r', 'u', 'e']
  | .bool false => ['f', 'a', 'l', 's', 'e']
  | .num n => numberText n
  | .str s => quote s
  | .arr items => '[' :: joinComma (writeItems items) ++ [']']
  | .obj members => '\x7b' :: joinComma (writeFields members) ++ ['\x7d']

/-- The items as written. -/
def writeItems : List Json → List (List Char)
  | [] => []
  | item :: items => item.write :: writeItems items

/-- The members as written. -/
def writeFields : List (String × Json) → List (List Char)
  | [] => []
  | (name, member) :: members => memberText (name, member.write) :: writeFields members

end

/-! ### Reading -/

mutual

/-- The document with its numbers rounded; none where one is infinite. -/
def roundNumbers : Json → Option Json
  | .num n => (nearest n).map .num
  | .arr items => (roundItems items).map .arr
  | .obj members => (roundMembers members).map .obj
  | document => some document

/-- `roundNumbers` of each item. -/
def roundItems : List Json → Option (List Json)
  | [] => some []
  | item :: items => (roundNumbers item).bind fun item => (roundItems items).map (item :: ·)

/-- `roundNumbers` of each member. -/
def roundMembers : List (String × Json) → Option (List (String × Json))
  | [] => some []
  | (name, member) :: members =>
    (roundNumbers member).bind fun member => (roundMembers members).map ((name, member) :: ·)

end

/-- `JSON.parse`, with the numbers JavaScript has. -/
def jsonParse (text : List Char) : Option Json := (JsonText.parse text).bind roundNumbers

/-! ### Values -/

mutual

/-- The numbers are finite JavaScript numbers, and no object has a name twice. -/
def Json.WellFormed : Json → Prop
  | .num n => nearest n = some n
  | .arr items => itemsWellFormed items
  | .obj members => (members.map Prod.fst).Nodup ∧ membersWellFormed members
  | _ => True

/-- Each item is well formed. -/
def itemsWellFormed : List Json → Prop
  | [] => True
  | item :: items => item.WellFormed ∧ itemsWellFormed items

/-- Each member is well formed. -/
def membersWellFormed : List (String × Json) → Prop
  | [] => True
  | (_, member) :: members => member.WellFormed ∧ membersWellFormed members

end

/-- A document with finite numbers and distinct names. -/
structure JsonValue where
  document : Json
  wellFormed : document.WellFormed

mutual

/-- The documents are equal up to the order of members. -/
def Json.Alike : Json → Json → Prop
  | .arr items, d => ∃ items', d = .arr items' ∧ itemsAlike items items'
  | .obj members, d => ∃ members' reordered, d = .obj members' ∧ reordered.Perm members' ∧
      membersAlike members reordered
  | document, d => d = document

/-- The items are alike, one by one. -/
def itemsAlike : List Json → List Json → Prop
  | [], l => l = []
  | item :: items, l => ∃ item' items', l = item' :: items' ∧ item.Alike item' ∧
      itemsAlike items items'

/-- The members are alike, one by one. -/
def membersAlike : List (String × Json) → List (String × Json) → Prop
  | [], l => l = []
  | (name, member) :: members, l => ∃ member' members', l = (name, member') :: members' ∧
      member.Alike member' ∧ membersAlike members members'

end

/-! ### Base64url -/

/-- `base64UrlEncode`. -/
def base64UrlEncode (bytes : List UInt8) : String := V2.encode bytes

/-- `base64UrlDecode`; `V2.atob` reads `-` and `_` for `+` and `/`. -/
def base64UrlDecode (value : String) : Option (List UInt8) :=
  let text := value.toList
  if text.all V2.base64urlChar then
    (V2.atob (text ++ List.replicate ((4 - text.length % 4) % 4) '=')).bind fun bytes =>
      if base64UrlEncode bytes = value then some bytes else none
  else none

/-- **The strict reader accepts just what is written**, and reads it back. -/
theorem base64UrlDecode_eq_some_iff (value : String) (bytes : List UInt8) :
    base64UrlDecode value = some bytes ↔ value = base64UrlEncode bytes := by
  constructor
  · intro h
    simp only [base64UrlDecode, Option.ite_none_right_eq_some, Option.bind_eq_some_iff] at h
    obtain ⟨-, _, -, heq, hbytes⟩ := h
    rw [← heq, Option.some.inj hbytes]
  · rintro rfl
    have hchars : (base64UrlEncode bytes).toList.all V2.base64urlChar = true :=
      List.all_eq_true.mpr (V2.encode_chars bytes)
    have hlength : (base64UrlEncode bytes).toList.length % 4 ≠ 1 := by
      rw [base64UrlEncode, V2.encode_toList, List.length_map, V2.sextets_length]
      split <;> omega
    have hread : V2.atob ((base64UrlEncode bytes).toList ++
        List.replicate ((4 - (base64UrlEncode bytes).toList.length % 4) % 4) '=') = some bytes :=
      (V2.atob_padded (V2.encode_chars bytes) hlength).trans (V2.readDigits_encode bytes)
    simp only [base64UrlDecode]
    rw [if_pos hchars, hread, Option.bind_some, if_pos rfl]

/-! ### What is written is read back -/

variable {d : Json}

theorem head_write (hd : d.WellFormed) :
    ∃ c cs, d.write = c :: cs ∧ whitespace c = false ∧ c ≠ ']' := by
  cases d with
  | null => exact ⟨'n', _, rfl, by decide, by decide⟩
  | bool b =>
    cases b with
    | true => exact ⟨'t', _, rfl, by decide, by decide⟩
    | false => exact ⟨'f', _, rfl, by decide, by decide⟩
  | num n =>
    obtain ⟨c, cs, htext, hc⟩ := head_numberText hd
    refine ⟨c, cs, htext, ?_⟩
    rcases hc with rfl | hc
    · decide
    · refine ⟨(isDigit_plain hc).1, ?_⟩
      rintro rfl
      revert hc
      decide
  | str s => exact ⟨'"', _, rfl, by decide, by decide⟩
  | arr => exact ⟨'[', _, rfl, by decide, by decide⟩
  | obj => exact ⟨'\x7b', _, rfl, by decide, by decide⟩

theorem joinComma_cons (text text' : List Char) (texts : List (List Char)) :
    joinComma (text :: text' :: texts) = text ++ ',' :: joinComma (text' :: texts) := rfl

theorem ends_bracket (rest : List Char) : Ends (']' :: rest) := by
  intro c hc
  cases hc
  decide

variable {rest : List Char}

theorem readValue_number {x q : ℚ} (hx : nearest x = some x)
    (hread : readNumber (numberText x ++ rest) = some (q, rest)) (fuel : ℕ) :
    readValue (fuel + 1) (numberText x ++ rest) = some (.num q, rest) := by
  obtain ⟨c, _, htext, hc⟩ := head_numberText hx
  have hplain : whitespace c = false ∧ c ≠ '"' ∧ c ≠ '[' ∧ c ≠ '\x7b' ∧ c ≠ 't' ∧ c ≠ 'f' ∧
      c ≠ 'n' := by
    rcases hc with rfl | hc
    · decide
    · obtain ⟨h₁, h₂, h₃, h₄, h₅, h₆, h₇, -⟩ := isDigit_plain hc
      exact ⟨h₁, h₂, h₃, h₄, h₅, h₆, h₇⟩
  obtain ⟨hspace, hquote, hbracket, hbrace, ht, hf, hn⟩ := hplain
  rw [htext, List.cons_append] at hread ⊢
  rw [readValue, skip_cons hspace]
  simp only [hquote, hbracket, hbrace, ht, hf, hn, if_false]
  rw [hread]
  rfl

theorem readItems_last {fuel : ℕ} {text : List Char}
    (hread : readValue fuel (text ++ ']' :: rest) = some (d, ']' :: rest)) :
    readItems (fuel + 1) (text ++ ']' :: rest) = some ([d], rest) := by
  have hspace : whitespace ']' = false := rfl
  rw [readItems, hread, Option.bind_some]
  simp only
  rw [skip_cons hspace]
  simp

theorem readItems_next {fuel : ℕ} {text : List Char}
    (hread : readValue fuel (text ++ ',' :: rest) = some (d, ',' :: rest)) :
    readItems (fuel + 1) (text ++ ',' :: rest) =
      (readItems fuel rest).map fun (items, rest) => (d :: items, rest) := by
  have hspace : whitespace ',' = false := rfl
  rw [readItems, hread, Option.bind_some]
  simp only
  rw [skip_cons hspace]
  simp

theorem readMembers_member {fuel : ℕ} {name : String} {text : List Char} {c : Char}
    {before : List (String × Json)} (hspace : whitespace c = false)
    (hread : readValue fuel (text ++ c :: rest) = some (d, c :: rest)) :
    readMembers (fuel + 1) before (memberText (name, text) ++ c :: rest) =
      if c = ',' then readMembers fuel (setMember name d before) rest
      else if c = '\x7d' then some (setMember name d before, rest) else none := by
  have hquote : whitespace '"' = false := rfl
  have hcolon : whitespace ':' = false := rfl
  have htext : memberText (name, text) ++ c :: rest =
      '"' :: (name.toList.flatMap escape ++ '"' :: ':' :: (text ++ c :: rest)) := by
    simp [memberText, quote]
  rw [htext, readMembers, skip_cons hquote, expect_cons, Option.bind_some, readText_quoted,
    Option.bind_some]
  simp only
  rw [skip_cons hcolon, expect_cons, Option.bind_some, hread, Option.bind_some]
  rw [skip_cons hspace, String.ofList_toList]

mutual

theorem readValue_json : ∀ d : Json, d.WellFormed → ∃ d', roundNumbers d' = some d ∧
    ∀ fuel rest, d.write.length ≤ fuel → Ends rest →
      readValue fuel (d.write ++ rest) = some (d', rest)
  | .null, _ => by
    refine ⟨.null, rfl, fun fuel rest hfuel _ => ?_⟩
    obtain ⟨fuel, rfl⟩ := Nat.exists_eq_succ_of_ne_zero (n := fuel) (by rintro rfl; cases hfuel)
    have hspace : whitespace 'n' = false := rfl
    rw [Json.write, List.cons_append, readValue, skip_cons hspace]
    simp [expect]
  | .bool true, _ => by
    refine ⟨.bool true, rfl, fun fuel rest hfuel _ => ?_⟩
    obtain ⟨fuel, rfl⟩ := Nat.exists_eq_succ_of_ne_zero (n := fuel) (by rintro rfl; cases hfuel)
    exact readValue_write fuel (.flag true) ‹_›
  | .bool false, _ => by
    refine ⟨.bool false, rfl, fun fuel rest hfuel _ => ?_⟩
    obtain ⟨fuel, rfl⟩ := Nat.exists_eq_succ_of_ne_zero (n := fuel) (by rintro rfl; cases hfuel)
    exact readValue_write fuel (.flag false) ‹_›
  | .num n, hn => by
    obtain ⟨q, hround, hread⟩ := readNumber_numberText hn
    refine ⟨.num q, by rw [roundNumbers, hround, Option.map_some], fun fuel rest hfuel hrest => ?_⟩
    obtain ⟨c, _, htext, -⟩ := head_numberText hn
    obtain ⟨fuel, rfl⟩ := Nat.exists_eq_succ_of_ne_zero (n := fuel) (by
      rintro rfl
      rw [Json.write, htext] at hfuel
      cases hfuel)
    exact readValue_number hn (hread rest hrest) fuel
  | .str s, _ => by
    refine ⟨.str s, rfl, fun fuel rest hfuel hrest => ?_⟩
    obtain ⟨fuel, rfl⟩ := Nat.exists_eq_succ_of_ne_zero (n := fuel) (by rintro rfl; cases hfuel)
    exact readValue_write fuel (.text s) hrest
  -- the closing bracket is read at once only where the list is empty
  | .arr items, hitems => by
    obtain ⟨items', hround, hread⟩ := readItems_json items hitems
    refine ⟨.arr items', by rw [roundNumbers, hround, Option.map_some], fun fuel rest hfuel _ => ?_⟩
    obtain ⟨fuel, rfl⟩ := Nat.exists_eq_succ_of_ne_zero (n := fuel) (by rintro rfl; cases hfuel)
    have hspace : whitespace '[' = false := rfl
    have hclose : whitespace ']' = false := rfl
    simp only [Json.write, List.length_cons, List.length_append, List.length_nil] at hfuel
    simp only [Json.write, List.cons_append, List.append_assoc, List.nil_append]
    rw [readValue, skip_cons hspace]
    simp only [Char.reduceEq, if_false, if_true]
    cases items with
    | nil =>
      obtain rfl : items' = [] := by
        cases items' with
        | nil => rfl
        | cons =>
          simp [roundItems, Option.bind_eq_some_iff] at hround
      simp only [writeItems, joinComma, List.nil_append]
      rw [skip_cons hclose]
      rfl
    | cons item items =>
      obtain ⟨c, _, htext, hc, hbracket⟩ := head_write hitems.1
      have hhead : ∃ cs', joinComma (writeItems (item :: items)) ++ ']' :: rest = c :: cs' := by
        cases items <;> simp [writeItems, joinComma, htext]
      obtain ⟨_, hhead⟩ := hhead
      have hopen : (skip (joinComma (writeItems (item :: items)) ++ ']' :: rest)).head? ≠
          some ']' := by
        rw [hhead, skip_cons hc]
        simpa using hbracket
      rw [if_neg hopen, hread fuel rest (by simp) (by omega)]
      rfl
  | .obj members, hmembers => by
    obtain ⟨members', hround, hnames, hread⟩ := readMembers_json members hmembers.2
    refine ⟨.obj members', by rw [roundNumbers, hround, Option.map_some],
      fun fuel rest hfuel _ => ?_⟩
    obtain ⟨fuel, rfl⟩ := Nat.exists_eq_succ_of_ne_zero (n := fuel) (by rintro rfl; cases hfuel)
    have hspace : whitespace '\x7b' = false := rfl
    have hclose : whitespace '\x7d' = false := rfl
    have hquote : whitespace '"' = false := rfl
    simp only [Json.write, List.length_cons, List.length_append, List.length_nil] at hfuel
    simp only [Json.write, List.cons_append, List.append_assoc, List.nil_append]
    rw [readValue, skip_cons hspace]
    simp only [Char.reduceEq, if_false, if_true]
    cases members with
    | nil =>
      obtain rfl : members' = [] := List.map_eq_nil_iff.mp hnames
      simp only [writeFields, joinComma, List.nil_append]
      rw [skip_cons hclose]
      rfl
    | cons m members =>
      have hhead : ∃ cs', joinComma (writeFields (m :: members)) ++ '\x7d' :: rest = '"' :: cs' := by
        cases members <;> simp [writeFields, joinComma, memberText, quote]
      obtain ⟨_, hhead⟩ := hhead
      have hopen : (skip (joinComma (writeFields (m :: members)) ++ '\x7d' :: rest)).head? ≠
          some '\x7d' := by
        rw [hhead, skip_cons hquote]
        simp
      rw [if_neg hopen, hread fuel [] rest (by simp) hmembers.1 (by omega)]
      rfl

theorem readItems_json : ∀ items : List Json, itemsWellFormed items →
    ∃ items', roundItems items' = some items ∧ ∀ fuel rest, items ≠ [] →
      (joinComma (writeItems items)).length < fuel →
        readItems fuel (joinComma (writeItems items) ++ ']' :: rest) = some (items', rest)
  | [], _ => ⟨[], rfl, fun _ _ hne => absurd rfl hne⟩
  | item :: items, hitems => by
    obtain ⟨d, hround, hread⟩ := readValue_json item hitems.1
    obtain ⟨items', hrounds, hreads⟩ := readItems_json items hitems.2
    refine ⟨d :: items', by rw [roundItems, hround, Option.bind_some, hrounds, Option.map_some],
      fun fuel rest _ hfuel => ?_⟩
    obtain ⟨fuel, rfl⟩ := Nat.exists_eq_succ_of_ne_zero (n := fuel) (by omega)
    cases items with
    | nil =>
      obtain rfl : items' = [] := by
        cases items' with
        | nil => rfl
        | cons =>
          simp [roundItems, Option.bind_eq_some_iff] at hrounds
      simp only [writeItems, joinComma] at hfuel ⊢
      exact readItems_last (hread fuel (']' :: rest) (by omega) (ends_bracket rest))
    | cons =>
      simp only [writeItems, joinComma_cons, List.length_append, List.length_cons] at hfuel
      simp only [writeItems, joinComma_cons, List.append_assoc, List.cons_append]
      simp only [writeItems] at hreads
      rw [readItems_next (hread fuel (',' :: _) (by omega) (ends_comma _)),
        hreads fuel rest (by simp) (by omega)]
      rfl

theorem readMembers_json : ∀ members : List (String × Json), membersWellFormed members →
    ∃ members', roundMembers members' = some members ∧
      members'.map Prod.fst = members.map Prod.fst ∧ ∀ fuel before rest, members ≠ [] →
        (before.map Prod.fst ++ members.map Prod.fst).Nodup →
          (joinComma (writeFields members)).length < fuel →
            readMembers fuel before (joinComma (writeFields members) ++ '\x7d' :: rest) =
              some (before ++ members', rest)
  | [], _ => ⟨[], rfl, rfl, fun _ _ _ hne => absurd rfl hne⟩
  | (name, member) :: members, hmembers => by
    obtain ⟨d, hround, hread⟩ := readValue_json member hmembers.1
    obtain ⟨members', hrounds, hnames, hreads⟩ := readMembers_json members hmembers.2
    refine ⟨(name, d) :: members', ?_, ?_, fun fuel before rest _ hnodup hfuel => ?_⟩
    · rw [roundMembers, hround, Option.bind_some, hrounds, Option.map_some]
    · rw [List.map_cons, List.map_cons, hnames]
    have hfresh : setMember name d before = before ++ [(name, d)] := by
      refine setMember_fresh fun m hm heq => ?_
      rw [List.map_cons, List.nodup_append] at hnodup
      exact hnodup.2.2 m.1 (List.mem_map_of_mem hm) name List.mem_cons_self heq
    obtain ⟨fuel, rfl⟩ := Nat.exists_eq_succ_of_ne_zero (n := fuel) (by omega)
    cases members with
    | nil =>
      obtain rfl : members' = [] := List.map_eq_nil_iff.mp hnames
      simp only [writeFields, joinComma] at hfuel ⊢
      have hlength : member.write.length ≤ fuel := by
        simp only [memberText, List.length_append, List.length_cons] at hfuel
        omega
      rw [readMembers_member (by rfl) (hread fuel ('\x7d' :: rest) hlength (ends_brace rest)), hfresh]
      simp
    | cons m members =>
      obtain ⟨name', member'⟩ := m
      have hlength : member.write.length ≤ fuel ∧
          (joinComma (writeFields ((name', member') :: members))).length < fuel := by
        simp only [writeFields, joinComma_cons, List.length_append, List.length_cons,
          memberText] at hfuel ⊢
        omega
      have htext : joinComma (writeFields ((name, member) :: (name', member') :: members)) =
          memberText (name, member.write) ++
            ',' :: joinComma (writeFields ((name', member') :: members)) := rfl
      rw [htext, List.append_assoc, List.cons_append, readMembers_member (by rfl)
        (hread fuel (',' :: _) hlength.1 (ends_comma _)), if_pos rfl, hfresh,
        hreads fuel (before ++ [(name, d)]) rest (by simp) (by simpa using hnodup) hlength.2]
      simp

end

/-- **A document is read back from its text.** -/
theorem jsonParse_write (hd : d.WellFormed) : jsonParse d.write = some d := by
  obtain ⟨_, hround, hread⟩ := readValue_json d hd
  have hends : Ends [] := by
    intro c hc
    cases hc
  have hparse := hread (2 * d.write.length + 2) [] (by omega) hends
  rw [List.append_nil] at hparse
  rw [jsonParse, JsonText.parse, hparse, Option.bind_some]
  exact hround

/-! ### Names in order -/

open V2 (charUnits)

theorem charUnits_ne_nil (c : Char) : charUnits c ≠ [] := by
  unfold charUnits
  split <;> simp

/-- No code point is a surrogate, so the first unit tells how many belong to it. -/
theorem charUnits_append {c d : Char} {us vs : List ℕ}
    (h : charUnits c ++ us = charUnits d ++ vs) : c = d ∧ us = vs := by
  have hc : c.toNat < 55296 ∨ 57343 < c.toNat ∧ c.toNat < 1114112 := c.valid
  have hd : d.toNat < 55296 ∨ 57343 < d.toNat ∧ d.toNat < 1114112 := d.valid
  unfold charUnits at h
  have hnat : c.toNat = d.toNat ∧ us = vs := by
    split at h <;> split at h <;>
      simp only [List.cons_append, List.nil_append, List.cons.injEq] at h
    · exact h
    · omega
    · omega
    · exact ⟨by omega, h.2.2⟩
  exact ⟨Char.toNat_inj.mp hnat.1, hnat.2⟩

theorem codeUnits_injective : Function.Injective V2.codeUnits := by
  intro s t h
  have hchars : ∀ cs ds : List Char, cs.flatMap charUnits = ds.flatMap charUnits → cs = ds := by
    intro cs
    induction cs with
    | nil =>
      intro ds hds
      cases ds with
      | nil => rfl
      | cons => simp [charUnits_ne_nil] at hds
    | cons c cs ih =>
      intro ds hds
      cases ds with
      | nil => simp [charUnits_ne_nil] at hds
      | cons d ds =>
        rw [List.flatMap_cons, List.flatMap_cons] at hds
        obtain ⟨rfl, htail⟩ := charUnits_append hds
        rw [ih ds htail]
  exact String.toList_inj.mp (hchars _ _ h)

section Sorting

variable {α β : Type} {members members' : List (String × α)}

theorem perm_sortByName (members : List (String × α)) : (sortByName members).Perm members :=
  List.perm_insertionSort _ _

theorem nodup_sortByName (h : (members.map Prod.fst).Nodup) :
    ((sortByName members).map Prod.fst).Nodup :=
  (((perm_sortByName members).map Prod.fst).nodup_iff).mpr h

theorem map_sortByName (f : α → β) (members : List (String × α)) :
    (sortByName members).map (fun m => (m.1, f m.2)) =
      sortByName (members.map fun m => (m.1, f m.2)) := by
  exact List.map_insertionSort _ _ _ _ fun _ _ _ _ => Iff.rfl

theorem sortByName_eq_iff (hnames : (members.map Prod.fst).Nodup) :
    sortByName members = sortByName members' ↔ members.Perm members' := by
  constructor
  · intro h
    exact (perm_sortByName members).symm.trans (h ▸ perm_sortByName members')
  intro h
  have hperm := ((perm_sortByName members).trans h).trans (perm_sortByName members').symm
  have hsorted : ∀ l : List (String × α), (sortByName l).Pairwise fun a b =>
      V2.codeUnits a.1 ≤ V2.codeUnits b.1 := fun l => List.pairwise_insertionSort _ l
  refine hperm.eq_of_pairwise ?_ (hsorted members) (hsorted members')
  intro a b ha hb hab hba
  -- members in each other's place have one name, and so are one member
  have hname : a.1 = b.1 := codeUnits_injective (le_antisymm hab hba)
  have ha' : a ∈ members := (perm_sortByName members).mem_iff.mp ha
  have hb' : b ∈ members := h.mem_iff.mpr ((perm_sortByName members').mem_iff.mp hb)
  exact Table.eq_of_key hnames ha' hb' hname

end Sorting

/-! ### Sorting a document -/

mutual

/-- The document with the members of each object in the order of their names. -/
def Json.sortKeys : Json → Json
  | .arr items => .arr (sortItems items)
  | .obj members => .obj (sortByName (sortMembers members))
  | document => document

/-- The items, each with its keys sorted. -/
def sortItems : List Json → List Json
  | [] => []
  | item :: items => item.sortKeys :: sortItems items

/-- The members, each with its keys sorted. -/
def sortMembers : List (String × Json) → List (String × Json)
  | [] => []
  | (name, member) :: members => (name, member.sortKeys) :: sortMembers members

end

theorem sortMembers_eq_map (members : List (String × Json)) :
    sortMembers members = members.map fun m => (m.1, m.2.sortKeys) := by
  induction members with
  | nil => rfl
  | cons _ _ ih => rw [sortMembers, ih, List.map_cons]

theorem map_fst_sortMembers (members : List (String × Json)) :
    (sortMembers members).map Prod.fst = members.map Prod.fst := by
  rw [sortMembers_eq_map, List.map_map]
  rfl

theorem writeFields_eq_map (members : List (String × Json)) :
    writeFields members = members.map fun m => memberText (m.1, m.2.write) := by
  induction members with
  | nil => rfl
  | cons _ _ ih => rw [writeFields, ih, List.map_cons]

mutual

/-- The canonical text is that of the sorted document. -/
theorem canonicalJson_eq : ∀ d : Json, canonicalJson d = d.sortKeys.write
  | .null => rfl
  | .bool b => by cases b <;> rfl
  | .num n => rfl
  | .str s => rfl
  | .arr items => by
    rw [canonicalJson, Json.sortKeys, Json.write, canonicalItems_eq items]
  | .obj members => by
    rw [canonicalJson, Json.sortKeys, Json.write, canonicalMembers_eq members, ← map_sortByName,
      writeFields_eq_map, List.map_map]
    rfl

theorem canonicalItems_eq : ∀ items : List Json,
    canonicalItems items = writeItems (sortItems items)
  | [] => rfl
  | item :: items => by
    rw [canonicalItems, sortItems, writeItems, canonicalJson_eq item, canonicalItems_eq items]

theorem canonicalMembers_eq : ∀ members : List (String × Json),
    canonicalMembers members = (sortMembers members).map fun m => (m.1, m.2.write)
  | [] => rfl
  | (name, member) :: members => by
    rw [canonicalMembers, sortMembers, List.map_cons, canonicalJson_eq member,
      canonicalMembers_eq members]

end

theorem membersWellFormed_iff (members : List (String × Json)) :
    membersWellFormed members ↔ ∀ m ∈ members, m.2.WellFormed := by
  induction members with
  | nil => simp [membersWellFormed]
  | cons _ _ ih => simp [membersWellFormed, ih]

mutual

theorem wellFormed_sortKeys : ∀ d : Json, d.WellFormed → d.sortKeys.WellFormed
  | .null, h => h
  | .bool _, h => h
  | .num _, h => h
  | .str _, h => h
  | .arr items, h => itemsWellFormed_sortItems items h
  | .obj members, h => by
    refine ⟨nodup_sortByName ?_, ?_⟩
    · rw [map_fst_sortMembers]
      exact h.1
    · rw [membersWellFormed_iff]
      intro m hm
      have hmem := (perm_sortByName _).mem_iff.mp hm
      exact (membersWellFormed_iff _).mp (membersWellFormed_sortMembers members h.2) m hmem

theorem itemsWellFormed_sortItems : ∀ items : List Json, itemsWellFormed items →
    itemsWellFormed (sortItems items)
  | [], h => h
  | item :: items, h =>
    ⟨wellFormed_sortKeys item h.1, itemsWellFormed_sortItems items h.2⟩

theorem membersWellFormed_sortMembers : ∀ members : List (String × Json),
    membersWellFormed members → membersWellFormed (sortMembers members)
  | [], h => h
  | (_, member) :: members, h =>
    ⟨wellFormed_sortKeys member h.1, membersWellFormed_sortMembers members h.2⟩

end

/-! ### What sorting forgets -/

theorem exists_perm_of_map {α β : Type} {f : α → β} {l : List α} {l' : List β}
    (h : l'.Perm (l.map f)) : ∃ reordered : List α, reordered.Perm l ∧ reordered.map f = l' := by
  obtain ⟨l'', hl''⟩ : ∃ l'', l'' = l.map f := ⟨_, rfl⟩
  rw [← hl''] at h
  induction h generalizing l with
  | nil => exact ⟨[], by rw [List.map_eq_nil_iff.mp hl''.symm], rfl⟩
  | cons x _ ih =>
    obtain ⟨a, _, rfl, rfl, htail⟩ := List.map_eq_cons_iff.mp hl''.symm
    obtain ⟨reordered, hperm, hmap⟩ := ih htail.symm
    exact ⟨a :: reordered, hperm.cons a, by rw [List.map_cons, hmap]⟩
  | swap =>
    obtain ⟨a, tail, rfl, rfl, htail⟩ := List.map_eq_cons_iff.mp hl''.symm
    obtain ⟨b, tail, rfl, rfl, rfl⟩ := List.map_eq_cons_iff.mp htail
    exact ⟨b :: a :: tail, List.Perm.swap a b tail, rfl⟩
  | trans _ _ ih₁ ih₂ =>
    obtain ⟨_, hperm, hmap⟩ := ih₂ hl''
    obtain ⟨reordered', hperm', hmap'⟩ := ih₁ hmap.symm
    exact ⟨reordered', hperm'.trans hperm, hmap'⟩

mutual

/-- **Sorting leaves just what does not depend on the order of members.** -/
theorem sortKeys_eq_iff : ∀ d d' : Json, d.WellFormed → d'.WellFormed →
    (d.sortKeys = d'.sortKeys ↔ d.Alike d')
  | .null, d', _, _ => by cases d' <;> simp [Json.sortKeys, Json.Alike]
  | .bool b, d', _, _ => by cases d' <;> simp [Json.sortKeys, Json.Alike, eq_comm]
  | .num n, d', _, _ => by cases d' <;> simp [Json.sortKeys, Json.Alike, eq_comm]
  | .str s, d', _, _ => by cases d' <;> simp [Json.sortKeys, Json.Alike, eq_comm]
  | .arr items, d', h, h' => by
    cases d' with
    | arr items' =>
      have hitems := sortItems_eq_iff items items' h h'
      simp only [Json.sortKeys, Json.Alike, Json.arr.injEq, hitems]
      constructor
      · exact fun halike => ⟨items', rfl, halike⟩
      · rintro ⟨_, rfl, halike⟩
        exact halike
    | _ => simp [Json.sortKeys, Json.Alike]
  | .obj members, d', h, h' => by
    cases d' with
    | obj members' =>
      have hnames : ((sortMembers members).map Prod.fst).Nodup := by
        rw [map_fst_sortMembers]
        exact h.1
      have hwell : ∀ reordered : List (String × Json), reordered.Perm members' →
          membersWellFormed reordered := by
        intro reordered hperm
        rw [membersWellFormed_iff]
        intro m hm
        exact (membersWellFormed_iff _).mp h'.2 m (hperm.mem_iff.mp hm)
      simp only [Json.sortKeys, Json.Alike, Json.obj.injEq, sortByName_eq_iff hnames]
      constructor
      · intro hperm
        rw [sortMembers_eq_map members'] at hperm
        obtain ⟨reordered, hreordered, hmap⟩ := exists_perm_of_map hperm
        rw [← sortMembers_eq_map] at hmap
        exact ⟨members', reordered, rfl, hreordered,
          (sortMembers_eq_iff members reordered h.2 (hwell reordered hreordered)).mp hmap.symm⟩
      · rintro ⟨_, reordered, rfl, hreordered, halike⟩
        rw [(sortMembers_eq_iff members reordered h.2 (hwell reordered hreordered)).mpr halike,
          sortMembers_eq_map, sortMembers_eq_map]
        exact hreordered.map _
    | _ => simp [Json.sortKeys, Json.Alike]

theorem sortItems_eq_iff : ∀ items items' : List Json, itemsWellFormed items →
    itemsWellFormed items' → (sortItems items = sortItems items' ↔ itemsAlike items items')
  | [], items', _, _ => by cases items' <;> simp [sortItems, itemsAlike]
  | item :: items, items', h, h' => by
    cases items' with
    | nil => simp [sortItems, itemsAlike]
    | cons item' items' =>
      simp only [sortItems, List.cons.injEq, sortKeys_eq_iff item item' h.1 h'.1,
        sortItems_eq_iff items items' h.2 h'.2, itemsAlike]
      constructor
      · exact fun ⟨hitem, hitems⟩ => ⟨item', items', ⟨rfl, rfl⟩, hitem, hitems⟩
      · rintro ⟨_, _, ⟨rfl, rfl⟩, hitem, hitems⟩
        exact ⟨hitem, hitems⟩

theorem sortMembers_eq_iff : ∀ members members' : List (String × Json),
    membersWellFormed members → membersWellFormed members' →
      (sortMembers members = sortMembers members' ↔ membersAlike members members')
  | [], members', _, _ => by cases members' <;> simp [sortMembers, membersAlike]
  | (name, member) :: members, members', h, h' => by
    cases members' with
    | nil => simp [sortMembers, membersAlike]
    | cons m members' =>
      obtain ⟨_, member'⟩ := m
      simp only [sortMembers, List.cons.injEq, Prod.mk.injEq,
        sortKeys_eq_iff member member' h.1 h'.1, sortMembers_eq_iff members members' h.2 h'.2,
        membersAlike]
      constructor
      · rintro ⟨⟨rfl, hmember⟩, hmembers⟩
        exact ⟨member', members', ⟨⟨rfl, rfl⟩, rfl⟩, hmember, hmembers⟩
      · rintro ⟨_, _, ⟨⟨rfl, rfl⟩, rfl⟩, hmember, hmembers⟩
        exact ⟨⟨rfl, hmember⟩, hmembers⟩

end

mutual

theorem sortKeys_sortKeys : ∀ d : Json, d.sortKeys.sortKeys = d.sortKeys
  | .null => rfl
  | .bool _ => rfl
  | .num _ => rfl
  | .str _ => rfl
  | .arr items => by rw [Json.sortKeys, Json.sortKeys, sortItems_sortItems items]
  | .obj members => by
    have hmap : sortMembers (sortByName (sortMembers members)) = sortByName (sortMembers members) := by
      rw [sortMembers_eq_map, map_sortByName, ← sortMembers_eq_map, sortMembers_sortMembers members]
    have hsorted : sortByName (sortByName (sortMembers members)) =
        sortByName (sortMembers members) :=
      (List.pairwise_insertionSort _ (sortMembers members)).insertionSort_eq
    rw [Json.sortKeys, Json.sortKeys, hmap, hsorted]

theorem sortItems_sortItems : ∀ items : List Json, sortItems (sortItems items) = sortItems items
  | [] => rfl
  | item :: items => by
    rw [sortItems, sortItems, sortKeys_sortKeys item, sortItems_sortItems items]

theorem sortMembers_sortMembers : ∀ members : List (String × Json),
    sortMembers (sortMembers members) = sortMembers members
  | [] => rfl
  | (name, member) :: members => by
    rw [sortMembers, sortMembers, sortKeys_sortKeys member, sortMembers_sortMembers members]

end

/-- The canonical text is read back as the value with its members sorted. -/
theorem jsonParse_canonicalJson (hd : d.WellFormed) :
    jsonParse (canonicalJson d) = some d.sortKeys := by
  rw [canonicalJson_eq]
  exact jsonParse_write (wellFormed_sortKeys _ hd)

/-- Two documents have one canonical text where they differ in the order of members only. -/
theorem canonicalJson_eq_iff {d' : Json} (hd : d.WellFormed) (hd' : d'.WellFormed) :
    canonicalJson d = canonicalJson d' ↔ d.Alike d' := by
  rw [← sortKeys_eq_iff _ _ hd hd']
  constructor
  · intro h
    have hread := jsonParse_canonicalJson hd
    rw [h, jsonParse_canonicalJson hd'] at hread
    exact (Option.some.inj hread).symm
  · intro h
    rw [canonicalJson_eq, canonicalJson_eq, h]

/-- **Canonical texts stand for values, and base64url for bytes.**  Two values have one canonical
text where they are equal up to the order of members; the text is read back as the value; and the
strict base64url reader accepts just what is written for bytes, and reads them. -/
theorem canonicalJson_faithful :
    (∀ x y : JsonValue,
      canonicalJson x.document = canonicalJson y.document ↔ x.document.Alike y.document) ∧
    (∀ x : JsonValue, ∃ d, jsonParse (canonicalJson x.document) = some d ∧ d.Alike x.document) ∧
    (∀ value bytes, base64UrlDecode value = some bytes ↔ value = base64UrlEncode bytes) := by
  refine ⟨fun x y => canonicalJson_eq_iff x.wellFormed y.wellFormed, fun x => ?_,
    base64UrlDecode_eq_some_iff⟩
  refine ⟨_, jsonParse_canonicalJson x.wellFormed, ?_⟩
  rw [← sortKeys_eq_iff _ _ (wellFormed_sortKeys _ x.wellFormed) x.wellFormed]
  exact sortKeys_sortKeys x.document

end Takoserver
