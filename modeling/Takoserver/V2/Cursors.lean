import Takoserver.V2.Base64

/-!
# Pagination cursors

`encodeCursor` and `decodeCursor` of `src/takoform-v2/routes.ts`.  A cursor is the
position of a page with the filters it was asked under, signed for the principal
who asked.  The signature is a parameter: the tag of a message under the cursor
key.
-/

namespace Takoserver.V2

/-- `ID`. -/
def identifier (value : String) : Bool :=
  match value.toList with
  | [] => false
  | c :: rest =>
    c.isAlphanum && decide (rest.length ≤ 127) &&
      rest.all fun c => c.isAlphanum || c = '.' || c = '_' || c = '-'

/-- What a listing is filtered by. -/
structure Filters where
  space : Option String := none
  name : Option String := none
  form : Option String := none
  deriving DecidableEq

/-- The members of a payload: a filter that is absent is no member. -/
def Filters.members (filters : Filters) : List (String × JsonText.Scalar) :=
  (filters.space.map fun s => ("space", .text s)).toList ++
    (filters.name.map fun s => ("name", .text s)).toList ++
      (filters.form.map fun s => ("form", .text s)).toList

/-- `CursorPayload`. -/
def cursorPayload (filters : Filters) (after : String) : List (String × JsonText.Scalar) :=
  ("v", .whole 1) :: ("after", .text after) :: filters.members

section Cursors

variable (mac : List UInt8 → List UInt8)

/-- `cursorSigningBytes`. -/
def cursorSigningBytes (principal encodedPayload : String) : List UInt8 :=
  Text.encode (String.ofList
    (JsonText.stringifyTexts ["forms.takoform.com/v2", principal, encodedPayload]))

/-- The payload of a cursor, as it stands in it. -/
def encodedPayload (filters : Filters) (after : String) : String :=
  encode (Text.encode (String.ofList (JsonText.stringify (cursorPayload filters after))))

/-- A cursor as text. -/
def encodeCursor (principal : String) (filters : Filters) (after : String) : String :=
  let payload := encodedPayload filters after
  String.ofList ['v', '1', '.'] ++ payload ++ String.ofList ['.'] ++
    encode (mac (cursorSigningBytes principal payload))

/-- `base64UrlDecode`. -/
def base64UrlDecode (value : String) : Option (List UInt8) :=
  if value ≠ "" && value.toList.all base64urlChar then decode value else none

def readPayload (members : List (String × Json)) (filters : Filters) : Option String :=
  match members.lookup "v", members.lookup "after" with
  | some (.num v), some (.str after) =>
    if v = 1 ∧ identifier after = true ∧ members.lookup "space" = filters.space.map .str ∧
        members.lookup "name" = filters.name.map .str ∧
        members.lookup "form" = filters.form.map .str ∧
        ∀ m ∈ members, m.1 ∈ ["v", "after", "space", "name", "form"] then
      some after
    else none
  | _, _ => none

/-- What is read from a cursor. -/
def decodeCursor (value principal : String) (filters : Filters) : Option String :=
  if 4096 < Text.utf16Length value then none
  else
    match value.toList.splitOn '.' with
    | [version, payload, signature] =>
      if version ≠ ['v', '1'] ∨ payload = [] ∨ signature = [] then none
      else do
        let payloadBytes ← base64UrlDecode (String.ofList payload)
        let signature ← base64UrlDecode (String.ofList signature)
        if mac (cursorSigningBytes principal (String.ofList payload)) ≠ signature then none
        else
          let text ← Text.decode payloadBytes
          (JsonText.parse text.toList).bind fun
            | .obj members => readPayload members filters
            | _ => none
    | _ => none

/-! ### Reading a cursor back -/

/-- The messages that are tagged for some principals and payloads. -/
def signedMessages (principals payloads : Set String) : Set (List UInt8) :=
  {message | ∃ principal ∈ principals, ∃ payload ∈ payloads,
    message = cursorSigningBytes principal payload}

/-- What is relied on of the tags: their length, and that no two of the messages of which there is
question share one. -/
structure Separating (messages : Set (List UInt8)) : Prop where
  length : ∀ message, (mac message).length = 32
  apart : messages.InjOn mac

variable {mac} {principal principal' after : String} {filters filters' : Filters}

/-- The members of a payload are read back under its own filters only. -/
theorem readPayload_payload :
    readPayload ((cursorPayload filters after).map fun m => (m.1, m.2.json)) filters' =
      if identifier after = true ∧ filters' = filters then some after else none := by
  obtain ⟨space, name, form⟩ := filters
  obtain ⟨space', name', form'⟩ := filters'
  have hinj : ∀ x y : Option String, x.map Json.str = y.map Json.str ↔ y = x := by
    intro x y
    rw [(Option.map_injective fun _ _ => Json.str.inj).eq_iff]
    exact eq_comm
  have hspace : ((cursorPayload ⟨space, name, form⟩ after).map fun m => (m.1, m.2.json)).lookup
      "space" = space.map .str := by
    cases space <;> cases name <;> cases form <;> rfl
  have hname : ((cursorPayload ⟨space, name, form⟩ after).map fun m => (m.1, m.2.json)).lookup
      "name" = name.map .str := by
    cases space <;> cases name <;> cases form <;> rfl
  have hform : ((cursorPayload ⟨space, name, form⟩ after).map fun m => (m.1, m.2.json)).lookup
      "form" = form.map .str := by
    cases space <;> cases name <;> cases form <;> rfl
  have hkeys : ∀ m ∈ (cursorPayload ⟨space, name, form⟩ after).map fun m => (m.1, m.2.json),
      m.1 ∈ ["v", "after", "space", "name", "form"] := by
    cases space <;> cases name <;> cases form <;> simp [cursorPayload, Filters.members]
  unfold readPayload
  rw [hspace, hname, hform]
  simp only [hinj]
  show (if ((1 : ℕ) : ℚ) = 1 ∧ identifier after = true ∧ space' = space ∧ name' = name ∧
    form' = form ∧ _ then some after else none) = _
  refine if_congr ?_ rfl rfl
  rw [Filters.mk.injEq, eq_true hkeys, Nat.cast_one]
  simp only [and_true, true_and]

theorem encode_ne_empty {bytes : List UInt8} (h : bytes ≠ []) : encode bytes ≠ "" := by
  intro heq
  have hread := readDigits_encode bytes
  rw [heq] at hread
  exact h (Option.some.inj hread).symm

theorem dot_not_mem_encode (bytes : List UInt8) : '.' ∉ (encode bytes).toList := by
  intro h
  have := encode_chars bytes _ h
  revert this
  decide

theorem base64UrlDecode_encode {bytes : List UInt8} (h : bytes ≠ []) :
    base64UrlDecode (encode bytes) = some bytes := by
  have hall : (encode bytes).toList.all base64urlChar = true :=
    List.all_eq_true.mpr (encode_chars bytes)
  unfold base64UrlDecode
  rw [hall, if_pos (by simp [encode_ne_empty h])]
  exact decode_encode bytes

theorem payload_bytes_ne_nil (filters : Filters) (after : String) :
    Text.encode (String.ofList (JsonText.stringify (cursorPayload filters after))) ≠ [] := by
  intro h
  have hnil : Text.encode (String.ofList []) = [] := by decide +kernel
  have := congrArg String.toList (Text.encode_injective (h.trans hnil.symm))
  simp [JsonText.stringify] at this

theorem parse_payload (filters : Filters) (after : String) :
    JsonText.parse (JsonText.stringify (cursorPayload filters after)) =
      some (.obj ((cursorPayload filters after).map fun m => (m.1, m.2.json))) := by
  refine JsonText.parse_stringify (by simp [cursorPayload]) ?_
  obtain ⟨space, name, form⟩ := filters
  cases space <;> cases name <;> cases form <;> simp [cursorPayload, Filters.members]

/-- What is read from a cursor: its position, where it is not too long, its tag is one for the
principal, and the filters are its own. -/
theorem decodeCursor_of_encodeCursor (hmac : ∀ message, mac message ≠ []) :
    decodeCursor mac (encodeCursor mac principal filters after) principal' filters' =
      if 4096 < Text.utf16Length (encodeCursor mac principal filters after) then none
      else if mac (cursorSigningBytes principal' (encodedPayload filters after)) ≠
        mac (cursorSigningBytes principal (encodedPayload filters after)) then none
      else if identifier after = true ∧ filters' = filters then some after else none := by
  have hbytes := payload_bytes_ne_nil filters after
  have htag := hmac (cursorSigningBytes principal (encodedPayload filters after))
  have hdot : '.' ∉ (encodedPayload filters after).toList := dot_not_mem_encode _
  have hdecode : base64UrlDecode (encodedPayload filters after) =
      some (Text.encode (String.ofList (JsonText.stringify (cursorPayload filters after)))) :=
    base64UrlDecode_encode hbytes
  have hsplit : (encodeCursor mac principal filters after).toList.splitOn '.' =
      [['v', '1'], (encodedPayload filters after).toList,
        (encode (mac (cursorSigningBytes principal (encodedPayload filters after)))).toList] := by
    have hlist : (encodeCursor mac principal filters after).toList =
        ['v', '1'] ++ '.' :: ((encodedPayload filters after).toList ++ '.' ::
          (encode (mac (cursorSigningBytes principal (encodedPayload filters after)))).toList) := by
      simp [encodeCursor]
    rw [hlist, List.splitOn_append_cons_self_of_not_mem (by decide),
      List.splitOn_append_cons_self_of_not_mem hdot,
      List.splitOn_eq_singleton (dot_not_mem_encode _)]
  have hpayload : (encodedPayload filters after).toList ≠ [] := by
    intro h
    exact encode_ne_empty hbytes (String.toList_inj.mp h)
  have hsignature : (encode (mac (cursorSigningBytes principal
      (encodedPayload filters after)))).toList ≠ [] := by
    intro h
    exact encode_ne_empty htag (String.toList_inj.mp h)
  have htext : Text.decode (Text.encode (String.ofList (JsonText.stringify
      (cursorPayload filters after)))) = some (String.ofList (JsonText.stringify
        (cursorPayload filters after))) := by
    refine Text.decode_encode ?_
    rw [String.toList_ofList]
    simp only [JsonText.stringify, List.cons_append, List.head?_cons]
    decide
  unfold decodeCursor
  rw [hsplit]
  split
  · rfl
  · simp only [ne_eq, not_true_eq_false, hpayload, hsignature, or_self, if_false,
      String.ofList_toList]
    rw [hdecode, base64UrlDecode_encode htag]
    simp only [Option.bind_eq_bind, Option.bind_some, htext, String.toList_ofList, parse_payload,
      readPayload_payload]

theorem mac_ne_nil {message : List UInt8} (h : (mac message).length = 32) : mac message ≠ [] := by
  intro hnil
  rw [hnil] at h
  cases h

/-- A cursor that is not too long is read back. -/
theorem decodeCursor_encodeCursor (hmac : ∀ message, (mac message).length = 32)
    (hafter : identifier after = true)
    (hlength : Text.utf16Length (encodeCursor mac principal filters after) ≤ 4096) :
    decodeCursor mac (encodeCursor mac principal filters after) principal filters =
      some after := by
  rw [decodeCursor_of_encodeCursor fun message => mac_ne_nil (hmac message),
    if_neg (not_lt.mpr hlength)]
  simp [hafter]

theorem decodeCursor_too_long
    (hlength : 4096 < Text.utf16Length (encodeCursor mac principal filters after)) :
    decodeCursor mac (encodeCursor mac principal filters after) principal' filters' = none := by
  rw [decodeCursor, if_pos hlength]

/-- **A cursor is refused for any other principal and any other filters.** -/
theorem decodeCursor_foreign {principals payloads : Set String}
    (hmac : Separating mac (signedMessages principals payloads)) (hprincipal : principal ∈ principals)
    (hprincipal' : principal' ∈ principals) (hpayload : encodedPayload filters after ∈ payloads)
    (hne : principal' ≠ principal ∨ filters' ≠ filters) :
    decodeCursor mac (encodeCursor mac principal filters after) principal' filters' = none := by
  rw [decodeCursor_of_encodeCursor fun message => mac_ne_nil (hmac.length message)]
  split
  · rfl
  split
  · rfl
  next htag =>
  have hmessage := hmac.apart ⟨principal', hprincipal', _, hpayload, rfl⟩
    ⟨principal, hprincipal, _, hpayload, rfl⟩ (not_not.mp htag)
  have htexts := JsonText.stringifyTexts_inj (by simp) (by simp)
    (String.ofList_inj.mp (Text.encode_injective hmessage))
  have hsame : principal' = principal := by simpa using htexts
  rw [if_neg]
  rintro ⟨-, heq⟩
  rcases hne with hne | hne
  · exact hne hsame
  · exact hne heq

/-! ### How long a cursor is -/

/-- The bytes of a payload. -/
def payloadBytes (filters : Filters) (after : String) : List UInt8 :=
  Text.encode (String.ofList (JsonText.stringify (cursorPayload filters after)))

/-- A payload is no shorter than the URL of the Form it is filtered by. -/
theorem length_le_payload {form : String} (hform : filters.form = some form) (after : String) :
    form.toList.length ≤ (payloadBytes filters after).length := by
  have hmember : ("form", JsonText.Scalar.text form) ∈ cursorPayload filters after := by
    simp [cursorPayload, Filters.members, hform]
  exact (JsonText.length_le_stringify hmember).trans (Text.length_le_encode _)

theorem utf16Length_append (s t : String) :
    Text.utf16Length (s ++ t) = Text.utf16Length s + Text.utf16Length t := by
  simp [Text.utf16Length]

theorem utf16Length_encodeCursor (hmac : ∀ message, (mac message).length = 32) :
    Text.utf16Length (encodeCursor mac principal filters after) ≤ 4096 ↔
      (payloadBytes filters after).length ≤ 3036 := by
  have hversion : Text.utf16Length (String.ofList ['v', '1', '.']) = 3 := by decide
  have hdot : Text.utf16Length (String.ofList ['.']) = 1 := by decide
  have hpayload := sextets_length (payloadBytes filters after)
  have htag := sextets_length (mac (cursorSigningBytes principal (encodedPayload filters after)))
  rw [hmac, if_neg (by decide)] at htag
  rw [encodeCursor, utf16Length_append, utf16Length_append, utf16Length_append, hversion, hdot,
    utf16Length_encode, encodedPayload, utf16Length_encode, ← payloadBytes]
  rw [encodedPayload, ← payloadBytes] at htag
  split at hpayload <;> omega

end Cursors

end Takoserver.V2
