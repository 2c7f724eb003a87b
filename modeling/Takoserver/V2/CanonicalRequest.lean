import Takoserver.CanonicalJson

/-!
# The canonical text of a request

`canonicalRequest` of `src/takoform-v2/engine.ts`, which encodes what is accepted and what a
backend's result is settled with.  It finds a member that is `undefined` by its text, and so it
refuses a value that says `:undefined` in a string or a name.
-/

namespace Takoserver.V2

open JsonText

/-- `":undefined"`. -/
def undefinedMember : List Char := ':' :: "undefined".toList

/-- `canonicalRequest`: the text, or what `fail` throws.  Of a JSON value the encoding is always
a string. -/
def canonicalRequest (value : Json) : Except (String × ℕ) (List Char) :=
  let encoded := canonicalJson value
  if undefinedMember <:+: encoded then .error ("invalid_request", 400) else .ok encoded

/-- The presence of private values in a body. -/
def privateMember (privateInputs : Bool) : List (String × Json) :=
  if privateInputs then [("privateInputs", .bool true)] else []

/-- The fingerprint value of `acceptCreate`. -/
def createRequest (form space name : String) (spec : Json) (privateInputs : Bool) : Json :=
  .obj [("method", .str "POST"), ("path", .str "/resources"), ("query", .obj []),
    ("body", .obj ([("form", .str form), ("space", .str space), ("name", .str name),
      ("spec", spec)] ++ privateMember privateInputs))]

/-- The fingerprint value of `acceptUpdate`. -/
def updateRequest (uid : String) (expectedGeneration : ℕ) (spec : Json)
    (privateInputs : Bool) : Json :=
  .obj [("method", .str "PUT"), ("path", .str ("/resources/" ++ uid)), ("query", .obj []),
    ("expectedGeneration", .num expectedGeneration),
    ("body", .obj (("spec", spec) :: privateMember privateInputs))]

/-- The fingerprint value of `acceptDelete`. -/
def deleteRequest (uid : String) (expectedGeneration : ℕ) : Json :=
  .obj [("method", .str "DELETE"), ("path", .str ("/resources/" ++ uid)), ("query", .obj []),
    ("expectedGeneration", .num expectedGeneration)]

/-- `observedJson` and `outputJson` of the settlement of a completed result. -/
def completeSettlement (observed output : Json) :
    Except (String × ℕ) (List Char × List Char) := do
  let observedJson ← canonicalRequest observed
  let outputJson ← canonicalRequest output
  return (observedJson, outputJson)

mutual

/-- The strings and the names of a document. -/
def texts : Json → List String
  | .str s => [s]
  | .arr items => itemTexts items
  | .obj members => memberTexts members
  | _ => []

/-- The strings of the items. -/
def itemTexts : List Json → List String
  | [] => []
  | item :: items => texts item ++ itemTexts items

/-- The names and strings of the members. -/
def memberTexts : List (String × Json) → List String
  | [] => []
  | (name, member) :: members => name :: texts member ++ memberTexts members

end

/-- Whether the text holds `:undefined`. -/
def saysUndefined (text : String) : Bool := decide (undefinedMember <:+: text.toList)

/-- Whether one of the texts does. -/
def sayUndefined (texts : List String) : Bool := texts.any saysUndefined

/-! ### Where a text is found -/

variable {before : List Char}

/-- It is not found before its first character. -/
theorem infix_skip (h : ':' ∉ before) (after : List Char) :
    undefinedMember <:+: before ++ after ↔ undefinedMember <:+: after := by
  refine ⟨fun hi => ?_, List.infix_append_of_infix_right⟩
  rcases List.infix_append_iff.mp hi with hb | ha | ⟨l₁, _, hl, h₁, h₂⟩
  · exact absurd (hb.subset (by decide)) h
  · exact ha
  · cases l₁ with
    | nil => exact hl ▸ h₂.isInfix
    | cons =>
      obtain rfl := (List.cons.inj hl).1
      exact absurd (h₁.subset List.mem_cons_self) h

theorem infix_stop {c : Char} (h : c ∉ undefinedMember) (before after : List Char) :
    undefinedMember <:+: before ++ c :: after ↔
      undefinedMember <:+: before ∨ undefinedMember <:+: after := by
  have hfirst {l : List Char} (hl : l <+: c :: after) (hne : l ≠ []) : c ∈ l := by
    obtain ⟨d, l, rfl⟩ := List.exists_cons_of_ne_nil hne
    exact (List.cons_prefix_cons.mp hl).1 ▸ List.mem_cons_self
  rw [List.infix_append_iff_ne_nil, List.infix_cons_iff]
  refine ⟨?_, fun hi => hi.imp_right fun ha => .inl (.inr ha)⟩
  rintro (hb | (hp | ha) | ⟨l₁, _, -, hne, hl, -, h₂⟩)
  · exact .inl hb
  · exact absurd (hfirst hp (by decide)) h
  · exact .inr ha
  · exact absurd (hl ▸ List.mem_append_right l₁ (hfirst h₂ hne)) h

theorem infix_nil : ¬ undefinedMember <:+: [] := by decide

theorem infix_enclosed {c c' : Char} (hc : c ≠ ':') (hc' : c' ∉ undefinedMember)
    (text : List Char) : undefinedMember <:+: c :: text ++ [c'] ↔ undefinedMember <:+: text := by
  have hopen : ':' ∉ [c] := by simp [hc.symm]
  rw [← List.singleton_append, List.append_assoc, infix_skip hopen, infix_stop hc',
    or_iff_left infix_nil]

/-! ### Strings -/

/-- A character is written as it is, or is none of the pattern's and starts a sequence that is
none of its beginnings. -/
theorem escape_cases (c : Char) :
    escape c = [c] ∨ c ∉ undefinedMember ∧ ∃ tail, escape c = '\\' :: tail ∧ ':' ∉ tail := by
  unfold escape
  split_ifs with h₁ h₂ h₃ h₄ h₅ h₆ h₇ h₈
  rotate_left 7
  · refine .inr ⟨fun hc => ?_, _, rfl, ?_⟩
    · have hall : (undefinedMember.all fun c => decide (0x20 ≤ c.toNat)) = true := by decide
      have := of_decide_eq_true (List.all_eq_true.mp hall c hc)
      omega
    · have hdigit : ∀ n < 32, ':' ∉ ['u', '0', '0', Nat.digitChar (n / 16),
        Nat.digitChar (n % 16)] := by decide
      exact hdigit c.toNat h₈
  · exact .inl rfl
  all_goals exact .inr ⟨by subst c; decide, _, rfl, by decide⟩

theorem prefix_flatMap_escape {pattern : List Char} (h : pattern ⊆ undefinedMember)
    (cs : List Char) : pattern <+: cs.flatMap escape ↔ pattern <+: cs := by
  induction cs generalizing pattern with
  | nil => rfl
  | cons c cs ih =>
    cases pattern with
    | nil => simp
    | cons p =>
      obtain ⟨hp, hpattern⟩ := List.cons_subset.mp h
      rcases escape_cases c with hplain | ⟨hc, _, htail, -⟩
      · rw [List.flatMap_cons, hplain, List.singleton_append, List.cons_prefix_cons,
          List.cons_prefix_cons, ih hpattern]
      · have hslash : p ≠ '\\' := by
          rintro rfl
          revert hp
          decide
        have hpc : p ≠ c := fun heq => hc (heq ▸ hp)
        rw [List.flatMap_cons, htail, List.cons_append, List.cons_prefix_cons,
          List.cons_prefix_cons]
        simp [hslash, hpc]

theorem infix_flatMap_escape (cs : List Char) :
    undefinedMember <:+: cs.flatMap escape ↔ undefinedMember <:+: cs := by
  induction cs with
  | nil => rfl
  | cons c cs ih =>
    rcases escape_cases c with hplain | ⟨hc, _, htail, hcolon⟩
    · have hfirst := prefix_flatMap_escape (List.Subset.refl undefinedMember) (c :: cs)
      rw [List.flatMap_cons, hplain, List.singleton_append] at hfirst ⊢
      rw [List.infix_cons_iff, List.infix_cons_iff, ih, hfirst]
    · have hmem : ':' ∉ escape c := by simp [htail, hcolon]
      have hskip : ':' ∉ [c] := fun h => hc (List.mem_singleton.mp h ▸ by decide)
      rw [List.flatMap_cons, infix_skip hmem, ih]
      exact (infix_skip hskip cs).symm

theorem infix_quote (s : String) :
    undefinedMember <:+: quote s ↔ undefinedMember <:+: s.toList := by
  rw [quote, infix_enclosed (by decide) (by decide), infix_flatMap_escape]

/-! ### Documents -/

theorem mem_numberText (x : ℚ) :
    ∀ c ∈ numberText x, c.isDigit = true ∨ c ∈ ['-', '+', '.', 'e'] := by
  have hdigits (n : ℕ) : ∀ c ∈ Nat.toDigits 10 n, c.isDigit = true := isDigit_toDigits n
  have htext (d : Decimal) : ∀ c ∈ d.text, c.isDigit = true ∨ c ∈ ['-', '+', '.', 'e'] := by
    intro c hc
    simp only [Decimal.text] at hc
    have hzero : ∀ c : Char, c = '0' → c.isDigit = true := by
      rintro c rfl
      rfl
    split_ifs at hc <;>
      grind [List.mem_of_mem_take, List.mem_of_mem_drop]
  intro c hc
  have hshortest {y : ℚ} (h : c ∈ ((shortest y).map Decimal.text).getD []) :
      c.isDigit = true ∨ c ∈ ['-', '+', '.', 'e'] := by
    cases hd : shortest y with
    | none => simp [hd] at h
    | some d =>
      rw [hd] at h
      exact htext d c h
  unfold numberText at hc
  split_ifs at hc with hzero hneg
  · exact .inl (List.mem_singleton.mp hc ▸ rfl)
  · rcases List.mem_cons.mp hc with rfl | hc
    · exact .inr (by decide)
    · exact hshortest hc
  · exact hshortest hc

theorem infix_joinComma (texts : List (List Char)) :
    undefinedMember <:+: joinComma texts ↔ ∃ text ∈ texts, undefinedMember <:+: text := by
  fun_induction joinComma texts with
  | case1 => simp [undefinedMember]
  | case2 text => simp
  | case3 text texts hne ih =>
    rw [infix_stop (by decide), ih]
    simp

theorem head_canonicalJson (d : Json) : ¬ "undefined".toList <+: canonicalJson d := by
  have hhead {text : List Char} (h : 'u' ∉ text) : ¬ "undefined".toList <+: text := fun hp =>
    h (hp.subset (by decide))
  cases d with
  | num n => exact hhead fun hu => by simpa using mem_numberText n 'u' hu
  | bool b => cases b <;> decide
  | null => decide
  | str s => exact fun h => by simp [canonicalJson, quote] at h
  | arr => exact fun h => by simp [canonicalJson] at h
  | obj => exact fun h => by simp [canonicalJson] at h

theorem infix_memberText (name : String) (d : Json) :
    undefinedMember <:+: memberText (name, canonicalJson d) ↔
      undefinedMember <:+: name.toList ∨ undefinedMember <:+: canonicalJson d := by
  have hopen : ':' ∉ ['"'] := by decide
  have hvalue : undefinedMember <:+: ':' :: canonicalJson d ↔
      undefinedMember <:+: canonicalJson d := by
    rw [List.infix_cons_iff, or_iff_right]
    exact fun hp => head_canonicalJson d (List.cons_prefix_cons.mp hp).2
  have htext : memberText (name, canonicalJson d) =
      ['"'] ++ (name.toList.flatMap escape ++ '"' :: ':' :: canonicalJson d) := by
    simp [memberText, quote]
  rw [htext, infix_skip hopen, infix_stop (by decide), infix_flatMap_escape, hvalue]

mutual

/-- The text of a document holds `:undefined` where one of them does. -/
theorem infix_canonicalJson : ∀ d : Json,
    undefinedMember <:+: canonicalJson d ↔ sayUndefined (texts d) = true
  | .null => by decide
  | .bool true => by decide
  | .bool false => by decide
  | .num n => by
    have hnone : ¬ undefinedMember <:+: numberText n := fun h => by
      simpa using mem_numberText n ':' (h.subset (by decide))
    simp [canonicalJson, texts, sayUndefined, hnone]
  | .str s => by simp [canonicalJson, texts, sayUndefined, saysUndefined, infix_quote]
  | .arr items => by
    rw [canonicalJson, infix_enclosed (by decide) (by decide), infix_joinComma,
      infix_canonicalItems, texts]
  | .obj members => by
    rw [canonicalJson, infix_enclosed (by decide) (by decide), infix_joinComma, texts,
      ← infix_canonicalMembers]
    simp [sortByName]

theorem infix_canonicalItems : ∀ items : List Json,
    (∃ text ∈ canonicalItems items, undefinedMember <:+: text) ↔
      sayUndefined (itemTexts items) = true
  | [] => by simp [canonicalItems, itemTexts, sayUndefined]
  | item :: items => by
    have hitem := infix_canonicalJson item
    have hitems := infix_canonicalItems items
    simp [canonicalItems, itemTexts, sayUndefined, hitem, hitems]

theorem infix_canonicalMembers : ∀ members : List (String × Json),
    (∃ m ∈ canonicalMembers members, undefinedMember <:+: memberText m) ↔
      sayUndefined (memberTexts members) = true
  | [] => by simp [canonicalMembers, memberTexts, sayUndefined]
  | (name, member) :: members => by
    have hmember := infix_canonicalJson member
    have hmembers := infix_canonicalMembers members
    simp [canonicalMembers, memberTexts, sayUndefined, saysUndefined, infix_memberText, hmember,
      hmembers, or_assoc]

end

/-! ### What is accepted and settled -/

theorem canonicalRequest_eq (d : Json) : canonicalRequest d =
    if sayUndefined (texts d) then .error ("invalid_request", 400) else .ok (canonicalJson d) := by
  simp only [canonicalRequest, infix_canonicalJson]

theorem isOk_canonicalRequest (d : Json) :
    (canonicalRequest d).isOk = true ↔ ¬ sayUndefined (texts d) := by
  rw [canonicalRequest_eq]
  split <;> simp_all [Except.isOk, Except.toBool]

theorem isOk_completeSettlement (observed output : Json) :
    (completeSettlement observed output).isOk = true ↔
      ¬ sayUndefined (texts observed) ∧ ¬ sayUndefined (texts output) := by
  rw [← isOk_canonicalRequest, ← isOk_canonicalRequest]
  unfold completeSettlement
  cases canonicalRequest observed <;> cases canonicalRequest output <;>
    simp [bind, Except.bind, pure, Except.pure, Except.isOk, Except.toBool]

theorem memberTexts_append (members members' : List (String × Json)) :
    memberTexts (members ++ members') = memberTexts members ++ memberTexts members' := by
  induction members with
  | nil => rfl
  | cons _ _ ih => simp [memberTexts, ih]

/-- **A value is encoded, a request accepted and a completed result settled just where none of
their strings and names holds `:undefined`**; a value is then encoded as its canonical text. -/
theorem encoded_iff (d : Json) (form space name uid : String) (expectedGeneration : ℕ)
    (privateInputs : Bool) (spec observed output : Json) :
    (∀ encoded, canonicalRequest d = .ok encoded ↔
      encoded = canonicalJson d ∧ ¬ sayUndefined (texts d)) ∧
    ((canonicalRequest (createRequest form space name spec privateInputs)).isOk = true ↔
      ¬ sayUndefined ([form, space, name] ++ texts spec)) ∧
    ((canonicalRequest (updateRequest uid expectedGeneration spec privateInputs)).isOk = true ↔
      ¬ sayUndefined (uid :: texts spec)) ∧
    ((completeSettlement observed output).isOk = true ↔
      ¬ sayUndefined (texts observed ++ texts output)) := by
  have hpresence : ∀ text ∈ memberTexts (privateMember privateInputs),
      saysUndefined text = false := by
    cases privateInputs <;> decide +kernel
  have hfixed : ∀ text ∈ ["method", "POST", "PUT", "path", "/resources", "query",
      "expectedGeneration", "body", "form", "space", "name", "spec"],
      saysUndefined text = false := by
    decide +kernel
  have huid : saysUndefined ("/resources/" ++ uid) = saysUndefined uid := by
    rw [saysUndefined, saysUndefined, String.toList_append, decide_eq_decide,
      infix_skip (by decide)]
  refine ⟨fun encoded => ?_, ?_, ?_, ?_⟩
  · rw [canonicalRequest_eq]
    split
    · next hfound => simp [hfound]
    · next hfound => simp [hfound, eq_comm]
  · rw [isOk_canonicalRequest]
    simp only [createRequest, texts, memberTexts, memberTexts_append]
    simp +contextual [sayUndefined, hfixed, hpresence]
  · rw [isOk_canonicalRequest]
    simp only [updateRequest, texts, memberTexts]
    simp +contextual [sayUndefined, hfixed, huid, hpresence]
  · rw [isOk_completeSettlement]
    simp [sayUndefined]

/-- A spec with an ordinary text in it, sent as JSON, is neither accepted nor settled. -/
theorem not_encoded :
    jsonParse "\x7b\"a\":\"x:undefined\"\x7d".toList = some (.obj [("a", .str "x:undefined")]) ∧
    canonicalRequest (.obj [("a", .str "x:undefined")]) = .error ("invalid_request", 400) ∧
    completeSettlement (.obj [("a", .str "x:undefined")]) (.obj []) =
      .error ("invalid_request", 400) := by
  decide +kernel

end Takoserver.V2
