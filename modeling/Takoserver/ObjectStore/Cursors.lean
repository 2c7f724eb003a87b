import Takoserver.ObjectStore.Listing

/-!
# Cursors

The cursor of a page is read back as the bound it was written from: a key that
may be stored is short enough that its text stays under the length a cursor may
have, whatever of it JSON has to escape.
-/

namespace Takoserver.ObjectStore

/-! ### Lengths in UTF-8 -/

theorem utf8Length_append (a b : Points) : utf8Length (a ++ b) = utf8Length a + utf8Length b := by
  unfold utf8Length
  rw [Text.encode_append, List.length_append]

theorem utf8Length_cons (c : Char) (rest : Points) :
    utf8Length (c :: rest) = utf8Length [c] + utf8Length rest :=
  utf8Length_append [c] rest

@[simp] theorem utf8Length_nil : utf8Length [] = 0 := by decide +kernel

theorem utf8Length_pos (c : Char) : 0 < utf8Length [c] := Text.encode_pos c

theorem utf8Length_escape_le {c : Char} (h : 32 ≤ c.toNat) :
    utf8Length (JsonText.escape c) ≤ 2 * utf8Length [c] := by
  have hne : ∀ d : Char, d.toNat < 32 → c ≠ d := by
    rintro d _ rfl
    omega
  unfold JsonText.escape
  by_cases hquote : c = '"'
  · subst hquote
    decide +kernel
  · by_cases hslash : c = '\\'
    · subst hslash
      decide +kernel
    · rw [if_neg hquote, if_neg hslash, if_neg (hne _ (by decide)), if_neg (hne _ (by decide)),
        if_neg (hne _ (by decide)), if_neg (hne _ (by decide)), if_neg (hne _ (by decide)),
        if_neg (by omega)]
      omega

theorem utf8Length_flatMap_escape_le {key : Points} (h : ∀ c ∈ key, 32 ≤ c.toNat) :
    utf8Length (key.flatMap JsonText.escape) ≤ 2 * utf8Length key := by
  induction key with
  | nil => simp
  | cons c rest ih =>
    have hc := utf8Length_escape_le (h c List.mem_cons_self)
    have hrest := ih fun d hd => h d (List.mem_cons_of_mem _ hd)
    rw [List.flatMap_cons, utf8Length_append, utf8Length_cons c rest]
    omega

/-! ### The text of a bound -/

/-- The members of a cursor. -/
def Bound.members (bound : Bound) : List (String × JsonText.Scalar) :=
  [("k", .text (String.ofList bound.key)), ("i", .flag bound.inclusive)]

theorem stringify_members (bound : Bound) :
    JsonText.stringify bound.members =
      ['\x7b', '"', 'k', '"', ':', '"'] ++ bound.key.flatMap JsonText.escape ++
        ['"', ',', '"', 'i', '"', ':'] ++ (JsonText.Scalar.flag bound.inclusive).write ++
          ['\x7d'] := by
  have hk : JsonText.escape 'k' = ['k'] := by decide
  have hi : JsonText.escape 'i' = ['i'] := by decide
  simp [Bound.members, JsonText.stringify, JsonText.writeMembers, hk, hi, JsonText.Scalar.write,
    JsonText.quote]

theorem utf8Length_stringify_le {bound : Bound} (h : ∀ c ∈ bound.key, 32 ≤ c.toNat) :
    utf8Length (JsonText.stringify bound.members) ≤ 18 + 2 * utf8Length bound.key := by
  have hkey := utf8Length_flatMap_escape_le h
  have hopen : utf8Length ['\x7b', '"', 'k', '"', ':', '"'] = 6 := by decide +kernel
  have hnext : utf8Length ['"', ',', '"', 'i', '"', ':'] = 6 := by decide +kernel
  have hclose : utf8Length ['\x7d'] = 1 := by decide +kernel
  have hflag : ∀ b, utf8Length (JsonText.Scalar.flag b).write ≤ 5 := by decide +kernel
  have := hflag bound.inclusive
  rw [stringify_members, utf8Length_append, utf8Length_append, utf8Length_append,
    utf8Length_append]
  omega

theorem validKey_chars {key : Points} (h : validKey key = true) :
    utf8Length key ≤ maxKeyBytes ∧ ∀ c ∈ key, 32 ≤ c.toNat := by
  simp only [validKey, Bool.and_eq_true, decide_eq_true_eq, Bool.not_eq_true', List.any_eq_false,
    Bool.or_eq_true, not_or] at h
  refine ⟨h.1.2, fun c hc => ?_⟩
  have := (h.2 c hc).1
  omega

theorem sortedNames_bound (k i : Json) : sortedNames [("k", k), ("i", i)] = "i,k" := by
  have h : (["k", "i"].insertionSort fun a b => V2.codeUnits a ≤ V2.codeUnits b) = ["i", "k"] := by
    decide +kernel
  rw [sortedNames, List.map_cons, List.map_cons, List.map_nil, h]
  rfl

/-- **A cursor is read back** as the bound it was written from. -/
theorem decodeCursor_encodeBound {bound : Bound} (h : validKey bound.key = true) :
    decodeCursor (encodeBound bound) = some bound := by
  obtain ⟨hbytes, hchars⟩ := validKey_chars h
  have hlength := utf8Length_stringify_le hchars
  have hsextets := V2.sextets_length (Text.encode (String.ofList (JsonText.stringify bound.members)))
  have hencode : encodeBound bound =
      V2.encode (Text.encode (String.ofList (JsonText.stringify bound.members))) := rfl
  have hshort : ¬(encodeBound bound = "" ∨ 4096 < Text.utf16Length (encodeBound bound)) := by
    rw [hencode, V2.utf16Length_encode]
    unfold utf8Length at hlength
    unfold maxKeyBytes utf8Length at hbytes
    intro h
    rcases h with h | h
    · have hnil := congrArg (fun s => s.toList.length) h
      rw [V2.encode_toList, List.length_map] at hnil
      have hopen := utf8Length_pos '\x7b'
      have hpos : utf8Length ['\x7b'] ≤ utf8Length (JsonText.stringify bound.members) := by
        rw [JsonText.stringify, List.cons_append, utf8Length_cons _ (_ ++ _)]
        omega
      unfold utf8Length at hpos hopen
      change (V2.sextets _).length = 0 at hnil
      split at hsextets <;> omega
    · split at hsextets <;> omega
  have hread : bufferFrom (encodeBound bound) =
      some (Text.encode (String.ofList (JsonText.stringify bound.members))) :=
    V2.readDigits_encode _
  have htext : Text.decode (Text.encode (String.ofList (JsonText.stringify bound.members))) =
      some (String.ofList (JsonText.stringify bound.members)) := by
    refine Text.decode_encode ?_
    rw [String.toList_ofList, stringify_members]
    simp
  have hparse : JsonText.parse (JsonText.stringify bound.members) =
      some (.obj [("k", .str (String.ofList bound.key)), ("i", .bool bound.inclusive)]) :=
    JsonText.parse_stringify (by simp [Bound.members]) (by simp [Bound.members])
  have hall : (encodeBound bound).toList.all V2.base64urlChar = true := by
    rw [List.all_eq_true]
    exact V2.encode_chars _
  unfold decodeCursor
  simp only [hshort, hall, hread, htext, hparse, sortedNames_bound, if_false, Bool.not_true,
    Option.bind_eq_bind, Option.bind_some, String.toList_ofList, ne_eq, not_true_eq_false,
    Bool.false_eq_true]
  have hk : List.lookup "k" [("k", Json.str (String.ofList bound.key)),
      ("i", Json.bool bound.inclusive)] = some (.str (String.ofList bound.key)) := rfl
  have hi : List.lookup "i" [("k", Json.str (String.ofList bound.key)),
      ("i", Json.bool bound.inclusive)] = some (.bool bound.inclusive) := rfl
  rw [hk, hi]
  show (if maxKeyBytes < utf8Length (String.ofList bound.key).toList then none else _) = _
  rw [String.toList_ofList, if_neg (by omega)]

end Takoserver.ObjectStore
