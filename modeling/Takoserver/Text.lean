import Mathlib

/-!
# Texts

What the Host asks of a text before it stores it.  A Lean string holds whole code points: a
JavaScript string with an unpaired surrogate, which the Host refuses wherever it counts or encodes
one, has no value here.
-/

namespace Takoserver.Text

/-- The `length` of a JavaScript string. -/
def utf16Length (s : String) : ℕ := (s.toList.map fun c => if c.toNat < 65536 then 1 else 2).sum

/-- SQLite's `length`: the characters before the first that is zero. -/
def sqlLength (s : String) : ℕ := (s.toList.takeWhile fun c => decide (c.toNat ≠ 0)).length

/-- `new TextEncoder().encode(value)`. -/
def encode (s : String) : List UInt8 := s.toByteArray.data.toList

theorem encode_injective : Function.Injective encode := by
  intro s t h
  have hdata : s.toByteArray.data = t.toByteArray.data := Array.toList_inj.mp h
  exact String.toByteArray_inj.mp (ByteArray.ext hdata)

/-- Code points are encoded one after another. -/
theorem encode_append (points points' : List Char) :
    encode (String.ofList (points ++ points')) =
      encode (String.ofList points) ++ encode (String.ofList points') := by
  unfold encode
  rw [String.toByteArray_ofList, String.toByteArray_ofList, String.toByteArray_ofList,
    List.utf8Encode_append]
  simp

theorem encode_pos (c : Char) : 0 < (encode (String.ofList [c])).length := by
  rw [List.length_pos_iff]
  intro h
  have hnil : encode (String.ofList [c]) = encode (String.ofList []) := by
    rw [h]
    decide +kernel
  have := congrArg String.toList (encode_injective hnil)
  simp at this

theorem length_le_encode (points : List Char) :
    points.length ≤ (encode (String.ofList points)).length := by
  induction points with
  | nil => exact Nat.zero_le _
  | cons c =>
    have hc := encode_pos c
    rw [← List.singleton_append, encode_append, List.length_append, List.length_append,
      List.length_singleton]
    omega

/-- `new TextDecoder("utf-8", { fatal: true }).decode(bytes)`, which drops a byte order mark;
`none` where it throws. -/
def decode (bytes : List UInt8) : Option String :=
  (String.fromUTF8? ⟨bytes.toArray⟩).map fun s =>
    if s.toList.head? = some (Char.ofNat 0xfeff) then String.ofList (s.toList.drop 1) else s

/-- A text that starts with no byte order mark is read back from its bytes. -/
theorem decode_encode {s : String} (h : s.toList.head? ≠ some (Char.ofNat 0xfeff)) :
    decode (encode s) = some s := by
  have hread : String.fromUTF8? s.toByteArray = some s := by
    unfold String.fromUTF8?
    rw [dif_pos s.isValidUTF8]
    rfl
  have hbytes : (⟨(encode s).toArray⟩ : ByteArray) = s.toByteArray := by
    unfold encode
    rw [Array.toArray_toList]
  unfold decode
  rw [hbytes, hread, Option.map_some, if_neg h]

/-- `/^sha256:[0-9a-f]{64}$/`. -/
def sha256Digest (s : String) : Bool :=
  decide (s.toList.take 7 = "sha256:".toList) && decide (s.toList.length = 71) &&
    (s.toList.drop 7).all fun c => c.isDigit || decide ('a' ≤ c ∧ c ≤ 'f')

/-- `/^[A-Za-z0-9][A-Za-z0-9._:-]*$/` on a text of `low` to `high` characters. -/
def opaqueText (low high : ℕ) (s : String) : Bool :=
  decide (low ≤ s.toList.length ∧ s.toList.length ≤ high) &&
    s.toList.head?.any Char.isAlphanum &&
      s.toList.all fun c => c.isAlphanum || "._:-".toList.contains c

/-- `BOUNDARY_WHITESPACE`. -/
def boundaryWhitespace (c : Char) : Bool :=
  let n := c.toNat
  decide (0x09 ≤ n ∧ n ≤ 0x0d) || decide (0x2000 ≤ n ∧ n ≤ 0x200a) ||
    [0x20, 0x85, 0xa0, 0x1680, 0x2028, 0x2029, 0x202f, 0x205f, 0x3000, 0xfeff].contains n

/-- `isSpaceId` of `src/takoform/space-id.ts`. -/
def isSpaceId (s : String) : Bool :=
  let points := s.toList
  decide (0 < points.length ∧ points.length ≤ 255) &&
    !points.head?.any boundaryWhitespace && !points.getLast?.any boundaryWhitespace &&
    points.all fun c => c ≠ '/' && decide (0x1f < c.toNat) &&
      (decide (c.toNat < 0x7f) || decide (0x9f < c.toNat))

end Takoserver.Text
