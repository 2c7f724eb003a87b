import Takoserver.JsonText
import Takoserver.V2.Worker

/-!
# Sealed private inputs

`src/takoform-v2/private-inputs.ts`: a private input map is sealed once for the transfer to
the backend (AES-GCM, bound to the accepted Operation) and once for comparison (HMAC, bound
to the same), and the retained comparison bytes are themselves authenticated, so that a
missing key is not taken for a changed input.

The two algorithms of Web Crypto are the parameter `Crypto`.  What they are applied to is a
value rather than the canonical JSON text that denotes it: the texts of two values differ
where the values do.
-/

namespace Takoserver.V2

/-! ### Base64url, as `encode` and `decode` write and read it -/

def base64Digits : List Char :=
  "ABCDEFGHIJKLMNOPQRSTUVWXYZabcdefghijklmnopqrstuvwxyz0123456789-_".toList

/-- Bytes, six bits at a time. -/
def sextets : List UInt8 → List ℕ
  | [] => []
  | [a] => [a.toNat / 4, a.toNat % 4 * 16]
  | [a, b] => [a.toNat / 4, a.toNat % 4 * 16 + b.toNat / 16, b.toNat % 16 * 4]
  | a :: b :: c :: rest =>
    a.toNat / 4 :: (a.toNat % 4 * 16 + b.toNat / 16) :: (b.toNat % 16 * 4 + c.toNat / 64) ::
      c.toNat % 64 :: sextets rest

/-- The whole bytes of a list of six-bit digits; what is left over is dropped. -/
def octets : List ℕ → List UInt8
  | p :: q :: r :: s :: rest =>
    .ofNat (p * 4 + q / 16) :: .ofNat (q % 16 * 16 + r / 4) :: .ofNat (r % 4 * 64 + s) ::
      octets rest
  | [p, q, r] => [.ofNat (p * 4 + q / 16), .ofNat (q % 16 * 16 + r / 4)]
  | [p, q] => [.ofNat (p * 4 + q / 16)]
  | _ => []

/-- `encode`. -/
def encode (bytes : List UInt8) : String :=
  String.ofList ((sextets bytes).map fun digit => base64Digits.getD digit 'A')

/-- `atob` on a text whose `+` and `/` still read `-` and `_`: white space and final padding
go, and a text no bytes have throws. -/
def atob (text : List Char) : Option (List UInt8) :=
  let text := text.filter fun c => !(['\t', '\n', '\x0c', '\r', ' '].contains c)
  let text :=
    if text.length % 4 = 0 then
      if text.drop (text.length - 2) = ['=', '='] then text.take (text.length - 2)
      else if text.drop (text.length - 1) = ['='] then text.take (text.length - 1)
      else text
    else text
  if text.length % 4 = 1 then none
  else (text.mapM fun c => base64Digits.findIdx? (· == c)).map octets

/-- `decode`; a throw is `none`. -/
def decode (value : String) : Option (List UInt8) :=
  let text := value.toList.map fun c => if c = '+' then '-' else if c = '/' then '_' else c
  atob (text ++ List.replicate ((4 - text.length % 4) % 4) '=')

/-! ### Keys and what they sign -/

/-- `V2PrivateInputBinding`. -/
structure PrivateInputBinding where
  operationId : Uuid
  principal : String
  resourceUid : Uuid
  generation : ℕ

/-- A text a comparison key signs: `comparisonBytes` or `comparisonMaterialBytes`. -/
inductive Signed where
  | comparison (binding : PrivateInputBinding) (value : PrivateInputMap)
  | comparisonMaterial (tag : String)

/-- The algorithms of Web Crypto that `private-inputs.ts` calls, on keys of type `Key`. -/
structure Crypto (Key : Type*) where
  /-- HMAC with SHA-256. -/
  sign : Key → Signed → List UInt8
  /-- AES-GCM under a nonce, with the binding as additional data. -/
  encrypt : Key → List UInt8 → PrivateInputBinding → PrivateInputMap → List UInt8
  /-- AES-GCM, its plaintext parsed by `parsePrivateInputMap`; a throw is `none`. -/
  decrypt : Key → List UInt8 → PrivateInputBinding → List UInt8 → Option PrivateInputMap

/-- A key ring: the key that seals, and those that still open. -/
structure KeyRing (Key : Type*) where
  current : String × Key
  previous : List (String × Key) := []

/-- `V2PrivateInputCustody`. -/
structure PrivateInputCustody (Key : Type*) where
  transfer : KeyRing Key
  comparison : KeyRing Key
  transferTtlSeconds : ℕ

/-- `lookup`. -/
def KeyRing.lookup {Key : Type*} (ring : KeyRing Key) (id : String) : Option Key :=
  (ring.current :: ring.previous).lookup id

section Seals

variable {Key : Type*} (crypto : Crypto Key) (custody : PrivateInputCustody Key)
  (binding : PrivateInputBinding)

/-- The UTF-16 code units of a code point. -/
def charUnits (c : Char) : List ℕ :=
  if c.toNat < 65536 then [c.toNat]
  else [55296 + (c.toNat - 65536) / 1024, 56320 + (c.toNat - 65536) % 1024]

/-- The UTF-16 code units of a text, in whose order `sort` puts names. -/
def codeUnits (s : String) : List ℕ := s.toList.flatMap charUnits

/-- The members of a map, in the order `canonicalJson` writes them. -/
def canonicalInputs (inputs : PrivateInputMap) : PrivateInputMap :=
  inputs.insertionSort fun a b => codeUnits a.1 ≤ codeUnits b.1

/-- `canonicalJson(Object.keys(inputs).sort())`. -/
def namesJson (inputs : PrivateInputMap) : String :=
  "[" ++ ",".intercalate ((canonicalInputs inputs).map fun member =>
    String.ofList (JsonText.quote member.1)) ++ "]"

/-- `sealPrivateInputs`; `nonce` is what `crypto.getRandomValues` returns. -/
def sealPrivateInputs (inputs : PrivateInputMap) (nonce : List UInt8) (nowMs : Instant) :
    SealedPrivateInputs :=
  let value := canonicalInputs inputs
  let key := custody.comparison.current.2
  let encodedTag := encode (crypto.sign key (.comparison binding value))
  { names := namesJson inputs
    comparisonKeyId := custody.comparison.current.1
    comparisonTag := encodedTag ++ "." ++ encode (crypto.sign key (.comparisonMaterial encodedTag))
    transfer :=
      { keyId := custody.transfer.current.1
        nonce := encode nonce
        ciphertext := encode (crypto.encrypt custody.transfer.current.2 nonce binding value)
        expiresAtMs := nowMs + custody.transferTtlSeconds * 1000 } }

/-- `verifiedComparisonTag`: the tag, where the bytes kept with it authenticate it. -/
def verifiedComparisonTag (key : Key) (material : String) : Option (List UInt8) :=
  match (material.toList.splitOn '.').map String.ofList with
  | [tag, authenticator] =>
    if tag = "" ∨ authenticator = "" then none
    else
      match decode authenticator with
      | none => none
      | some authenticator =>
        if authenticator = crypto.sign key (.comparisonMaterial tag) then decode tag else none
  | _ => none

/-- `matchesPrivateInputs`; `none` where the comparison cannot be made. -/
def matchesPrivateInputs (comparisonKeyId comparisonTag : String) (inputs : PrivateInputMap) :
    Option Bool :=
  match custody.comparison.lookup comparisonKeyId with
  | none => none
  | some key =>
    (verifiedComparisonTag crypto key comparisonTag).map fun tag =>
      tag = crypto.sign key (.comparison binding (canonicalInputs inputs))

/-- `hasPrivateComparisonMaterial`. -/
def hasPrivateComparisonMaterial (id tag : String) : Bool :=
  match custody.comparison.lookup id with
  | none => false
  | some key => (verifiedComparisonTag crypto key tag).isSome

/-- `unsealPrivateInputs`. -/
def unsealPrivateInputs (transfer : Transfer) : Option PrivateInputMap :=
  match custody.transfer.lookup transfer.keyId with
  | none => none
  | some key =>
    match decode transfer.nonce, decode transfer.ciphertext with
    | some nonce, some ciphertext => crypto.decrypt key nonce binding ciphertext
    | _, _ => none

end Seals

end Takoserver.V2
