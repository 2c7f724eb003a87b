import Takoserver.Json
import Takoserver.Lib.Framing
import Takoserver.Text

/-!
# The values of a runtime input, and what they are sealed with

The one-shot Worker runtime-input handoff of `src/runtime-input-preparations.ts`: what a caller
prepares, the commitment to the public apply that it authorizes, and the text that is sealed.

SHA-256 and AES-GCM are parameters.  The text of a document stands as the document: `JSON.stringify`
tells the documents written here apart, and `JSON.parse` undoes it.
-/

namespace Takoserver.RuntimeInputs

open Text

/-- Milliseconds. -/
abbrev Instant := ℕ

/-- The text of the random bytes that a payload is sealed with. -/
abbrev Nonce := String

/-- The codes of `RuntimeInputPreparationError`. -/
inductive ErrorCode where
  | invalidArgument
  | conflict
  | operationNotFound
  | backendUnavailable
  | applyCommitmentMismatch

/-- What a call throws. -/
inductive Failure where
  /-- `RuntimeInputPreparationError`. -/
  | preparation (code : ErrorCode) (status : ℕ)
  /-- An error of the database, or a `TypeError`. -/
  | other

/-- The errors, each with its status. -/
def invalidArgument : Failure := .preparation .invalidArgument 400
def conflict : Failure := .preparation .conflict 409
def operationNotFound : Failure := .preparation .operationNotFound 404
def backendUnavailable : Failure := .preparation .backendUnavailable 503
def applyCommitmentMismatch : Failure := .preparation .applyCommitmentMismatch 409

/-- SHA-256, of bytes and of the text of a document, and AES-GCM under a key and a nonce with the
text of a document as its associated data. -/
structure Primitives (κ χ : Type) where
  sha256 : List UInt8 → String
  documentSha256 : Json → String
  encrypt : κ → Nonce → Json → Json → χ
  decrypt : κ → Nonce → Json → χ → Option Json

/-- What opens was sealed with the same key, nonce and associated data. -/
def Primitives.Unforgeable {κ χ : Type} (P : Primitives κ χ) : Prop :=
  ∀ k n a p k' n' a' p', P.decrypt k n a (P.encrypt k' n' a' p') = some p →
    k = k' ∧ n = n' ∧ a = a' ∧ p = p'

/-- One deployment of the Host: its origin and its seal keys. -/
structure Client (κ : Type) where
  canonicalPublicOrigin : String
  current : String × κ
  previous : List (String × κ) := []

/-- `keys.get(keyId)`. -/
def Client.key {κ : Type} (client : Client κ) (keyId : String) : Option κ :=
  (client.current :: client.previous).lookup keyId

/-! ### Grammars -/

/-- An identifier of at most 128 characters. -/
def validateOpaqueId (value : String) : Except Failure Unit :=
  if opaqueText 1 128 value then pure () else throw invalidArgument

/-- A key of 8 to 128 characters. -/
def validateOperationKey (value : String) : Except Failure Unit :=
  if opaqueText 8 128 value then pure () else throw invalidArgument

/-- A text that is neither empty nor too long. -/
def validateBoundedText (value : String) (maximum : ℕ) : Except Failure Unit :=
  if value = "" ∨ maximum < utf16Length value then throw invalidArgument else pure ()

/-- `bindingName`. -/
def bindingName (s : String) : Bool :=
  decide (s.toList.length ≤ 128) &&
    (s.toList.head?.any fun c => c.isUpper || decide (c = '_')) &&
      s.toList.all fun c => c.isUpper || c.isDigit || decide (c = '_')

/-- `/^[A-Za-z0-9_-]{16}$/`. -/
def generationText (s : String) : Bool :=
  decide (s.toList.length = 16) && s.toList.all fun c => c.isAlphanum || decide (c = '_' ∨ c = '-')

/-- A generation that has the form of one. -/
def validatedGeneration : Option Nonce → Except Failure Nonce
  | some value => if generationText value then pure value else throw backendUnavailable
  | none => throw backendUnavailable

/-- The limits of a preparation. -/
def maxProviderRuntimeInputBindings : ℕ := 64
def maxValueBytes : ℕ := 32 * 1024
def maxPublicApplyPathBytes : ℕ := 8 * 1024
def maxPublicApplyBodyBytes : ℕ := 1 * 1024 * 1024

/-- `[...names].sort()`. -/
def sorted (names : List String) : List String := names.insertionSort (· ≤ ·)

/-- The names in order, none twice. -/
def validatedBindingNames (names : List String) : Except Failure (List String) :=
  if sorted names = [] ∨ maxProviderRuntimeInputBindings < (sorted names).length ∨
      ¬(sorted names).Nodup ∨ ¬(sorted names).all bindingName then
    throw invalidArgument
  else pure (sorted names)

/-- What `validatedBindings` makes of one value. -/
def validatedValue : Option Json → Except Failure String
  | some (.str item) =>
      if item.toList.contains '\x00' ∨ (encode item).length < 1 ∨
          maxValueBytes < (encode item).length then
        throw invalidArgument
      else pure item
  | _ => throw invalidArgument

/-- The bindings in the order of their names, and the names. -/
def validatedBindings (value : List (String × Json)) :
    Except Failure (List (String × String) × List String) := do
  let names ← validatedBindingNames (value.map Prod.fst)
  let bindings ← names.mapM fun name => return (name, ← validatedValue (value.lookup name))
  return (bindings, names)

/-! ### The public apply -/

/-- The exact ordinary public apply that one preparation authorizes. -/
structure PublicApply where
  method : String
  path : String
  ifNoneMatch : String
  body : String

/-- What the commitment to an apply is framed with. -/
def publicApplyCommitmentLabel : String := "takoserver.worker-runtime-input-public-apply@v1"

/-- `utf8`. -/
def utf8 (value : String) (maximum : ℕ) : Except Failure (List UInt8) :=
  if maximum < (encode value).length then throw invalidArgument else pure (encode value)

/-- The framed bytes: each field after its length, as an unsigned 64-bit big-endian number. -/
def framed (apply : PublicApply) : List UInt8 :=
  Framing.frame (Framing.bigEndian 8)
    [encode publicApplyCommitmentLabel, encode apply.method, encode apply.path,
      encode apply.ifNoneMatch, encode apply.body]

section Primitives

variable {κ χ : Type} (P : Primitives κ χ)

/-- The commitment to one public apply. -/
def runtimeInputPublicApplyCommitment (apply : PublicApply) : Except Failure String := do
  if apply.method ≠ "PUT" then throw invalidArgument
  if apply.ifNoneMatch ≠ "*" then throw invalidArgument
  let path ← utf8 apply.path maxPublicApplyPathBytes
  if path.length < 1 ∨ apply.path.toList.head? ≠ some '/' then throw invalidArgument
  let body ← utf8 apply.body maxPublicApplyBodyBytes
  if body.length < 1 then throw invalidArgument
  return P.sha256 (framed apply)

/-- An apply that no preparation can authorize is reported as a mismatch. -/
def executingApplyCommitment (apply : PublicApply) : Except Failure String :=
  match runtimeInputPublicApplyCommitment P apply with
  | .ok commitment => pure commitment
  | .error _ => throw applyCommitmentMismatch

/-! ### What a caller prepares -/

/-- What `prepare` is asked. -/
structure PreparationInput where
  organizationId : String
  operationKey : String
  canonicalPublicOrigin : String
  publicApply : PublicApply
  bindings : List (String × String)

/-- `NormalizedPreparation`. -/
structure Preparation where
  organizationId : String
  operationKey : String
  canonicalPublicOrigin : String
  applyCommitment : String
  bindingNames : List String
  bindings : List (String × String)
  authorizedSpace : Option String

/-- The space a caller is confined to. -/
def normalizePreparationScope : Option String → Except Failure (Option String)
  | none => pure none
  | some space => if isSpaceId space then pure (some space) else throw invalidArgument

/-- The checks of what a caller prepares. -/
def normalizePreparation (input : PreparationInput) (hostOrigin : String)
    (scope : Option String) : Except Failure Preparation := do
  validateOpaqueId input.organizationId
  validateOperationKey input.operationKey
  if input.canonicalPublicOrigin ≠ hostOrigin then throw invalidArgument
  let applyCommitment ← runtimeInputPublicApplyCommitment P input.publicApply
  let (bindings, names) ← validatedBindings (input.bindings.map fun b => (b.1, .str b.2))
  let authorizedSpace ← normalizePreparationScope scope
  return {
    organizationId := input.organizationId
    operationKey := input.operationKey
    canonicalPublicOrigin := input.canonicalPublicOrigin
    applyCommitment, bindingNames := names, bindings, authorizedSpace }

/-- The id of a preparation, from its key alone. -/
def derivePreparationId (organizationId operationKey : String) : String :=
  let commitment := P.documentSha256 (.obj [
    ("format", .str "takoserver.worker-runtime-input-preparation-id@v2"),
    ("organizationId", .str organizationId), ("operationKey", .str operationKey)])
  "prep-" ++ String.ofList ((commitment.toList.drop 7).take 32)

end Primitives

/-! ### What is sealed -/

/-- The format a sealed payload names. -/
def sealedPayloadFormat : String := "takoserver.worker-runtime-input-sealed-payload@v2"

/-- `canonicalSealedPayload`. -/
def sealedPayload (input : Preparation) : Json :=
  .obj [
    ("format", .str sealedPayloadFormat),
    ("applyCommitment", .str input.applyCommitment),
    ("canonicalPublicOrigin", .str input.canonicalPublicOrigin),
    ("values", .obj (input.bindings.map fun b => (b.1, .str b.2)))]

/-- `canonicalAad`, and `canonicalAadFromRow`. -/
def canonicalAad (organizationId operationKey preparationId keyId canonicalPublicOrigin
    applyCommitment : String) (bindingNames : List String) : Json :=
  .obj [
    ("format", .str "takoserver.worker-runtime-input-aad@v2"),
    ("organizationId", .str organizationId),
    ("operationKey", .str operationKey),
    ("preparationId", .str preparationId),
    ("keyId", .str keyId),
    ("canonicalPublicOrigin", .str canonicalPublicOrigin),
    ("applyCommitment", .str applyCommitment),
    ("bindingNames", .arr (bindingNames.map .str))]

/-- The bindings of an opened payload, where it is one of the commitment, the origin and the
names. -/
def parseSealedPayload (applyCommitment canonicalPublicOrigin : String)
    (bindingNames : List String) : Json → Except Failure (List (String × String))
  | .obj payload =>
      if sorted (payload.map Prod.fst) ≠
            ["applyCommitment", "canonicalPublicOrigin", "format", "values"] ∨
          payload.lookup "format" ≠ some (.str sealedPayloadFormat) ∨
          payload.lookup "applyCommitment" ≠ some (.str applyCommitment) ∨
          payload.lookup "canonicalPublicOrigin" ≠ some (.str canonicalPublicOrigin) then
        throw backendUnavailable
      else
        match payload.lookup "values" with
        | some (.obj values) =>
            match validatedBindings values with
            | .ok (bindings, names) =>
                if names = bindingNames then pure bindings else throw backendUnavailable
            | .error _ => throw backendUnavailable
        | _ => throw backendUnavailable
  | _ => throw backendUnavailable

/-! ### What the checks ensure -/

variable {α β : Type} {f : α → Except Failure β} {commitment : String} {names : List String}
  {l : List α} {out : List β} {value : List (String × Json)}

theorem guard_ok {p : Prop} [Decidable p] {e : Failure} {f : Unit → Except Failure α} {a : α}
    (h : (if p then throw e >>= f else f () : Except Failure α) = .ok a) :
    ¬p ∧ f () = .ok a := by
  split at h
  · cases h
  · next hp => exact ⟨hp, h⟩

theorem bind_ok {x : Except Failure α} {b : β} (h : x >>= f = .ok b) :
    ∃ a, x = .ok a ∧ f a = .ok b := by
  cases x with
  | error e => cases h
  | ok a => exact ⟨a, rfl, h⟩

theorem utf8_ok {value : String} {maximum : ℕ} {bytes : List UInt8}
    (h : utf8 value maximum = .ok bytes) : (encode value).length ≤ maximum := by
  unfold utf8 at h
  split at h
  · cases h
  · next hle => exact Nat.le_of_not_lt hle

section Commitments

variable {κ χ : Type} {P : Primitives κ χ}

variable {apply : PublicApply}

/-- What an apply that has a commitment is like. -/
theorem commitment_ok (h : runtimeInputPublicApplyCommitment P apply = .ok commitment) :
    apply.method = "PUT" ∧ apply.ifNoneMatch = "*" ∧
      (encode apply.path).length ≤ maxPublicApplyPathBytes ∧
      (encode apply.body).length ≤ maxPublicApplyBodyBytes ∧
      commitment = P.sha256 (framed apply) := by
  unfold runtimeInputPublicApplyCommitment at h
  obtain ⟨hmethod, h⟩ := guard_ok h
  obtain ⟨hmatch, h⟩ := guard_ok h
  obtain ⟨_, hpath, h⟩ := bind_ok h
  obtain ⟨-, h⟩ := guard_ok h
  obtain ⟨_, hbody, h⟩ := bind_ok h
  obtain ⟨-, h⟩ := guard_ok h
  cases h
  exact ⟨not_not.mp hmethod, not_not.mp hmatch, utf8_ok hpath, utf8_ok hbody, rfl⟩

theorem fits_of_commitment (h : runtimeInputPublicApplyCommitment P apply = .ok commitment) :
    Framing.Fits (256 ^ 8)
      [encode publicApplyCommitmentLabel, encode apply.method, encode apply.path,
        encode apply.ifNoneMatch, encode apply.body] := by
  obtain ⟨hmethod, hmatch, hpath, hbody, -⟩ := commitment_ok h
  unfold maxPublicApplyPathBytes at hpath
  unfold maxPublicApplyBodyBytes at hbody
  intro field hfield
  simp only [List.mem_cons, List.not_mem_nil, or_false] at hfield
  rcases hfield with rfl | rfl | rfl | rfl | rfl
  · decide +kernel
  · rw [hmethod]
    decide +kernel
  · omega
  · rw [hmatch]
    decide +kernel
  · omega

/-- Where the hash has no collisions, a commitment stands for one apply. -/
theorem publicApply_of_commitment (hsha : Function.Injective P.sha256) {a b : PublicApply}
    (ha : runtimeInputPublicApplyCommitment P a = .ok commitment)
    (hb : runtimeInputPublicApplyCommitment P b = .ok commitment) : a = b := by
  obtain ⟨-, -, -, -, ha'⟩ := commitment_ok ha
  obtain ⟨-, -, -, -, hb'⟩ := commitment_ok hb
  have hframed : framed a = framed b := hsha (ha'.symm.trans hb')
  have hfields := Framing.frame_inj (by decide : 0 < 8) (Framing.length_bigEndian 8)
    (fun m n hm hn => Framing.bigEndian_inj hm hn) (fits_of_commitment ha)
    (fits_of_commitment hb) hframed
  simp only [List.cons.injEq, true_and, and_true] at hfields
  obtain ⟨hmethod, hpath, hmatch, hbody⟩ := hfields
  obtain ⟨_, _, _, _⟩ := a
  obtain ⟨_, _, _, _⟩ := b
  simp only [PublicApply.mk.injEq]
  exact ⟨encode_injective hmethod, encode_injective hpath, encode_injective hmatch,
    encode_injective hbody⟩

theorem executing_ok (h : executingApplyCommitment P apply = .ok commitment) :
    runtimeInputPublicApplyCommitment P apply = .ok commitment := by
  unfold executingApplyCommitment at h
  split at h
  · next hc =>
    cases h
    exact hc
  · cases h

end Commitments

/-! ### Bindings -/

theorem sorted_sorted (names : List String) : sorted (sorted names) = sorted names :=
  List.Pairwise.insertionSort_eq (List.pairwise_insertionSort (· ≤ ·) names)

theorem validatedBindingNames_ok {out : List String}
    (h : validatedBindingNames names = .ok out) :
    out = sorted names ∧ out.Nodup ∧ validatedBindingNames out = .ok out := by
  unfold validatedBindingNames at h
  split at h
  · cases h
  · next hvalid =>
    cases h
    refine ⟨rfl, ?_, ?_⟩
    · by_contra hdup
      exact hvalid (Or.inr (Or.inr (Or.inl hdup)))
    · unfold validatedBindingNames
      rw [sorted_sorted, if_neg hvalid]
      rfl

theorem validatedValue_ok {value : Option Json} {item : String}
    (h : validatedValue value = .ok item) :
    value = some (.str item) ∧ validatedValue (some (.str item)) = .ok item := by
  unfold validatedValue at h
  split at h
  · next =>
    split at h
    · cases h
    · next hvalid =>
      cases h
      exact ⟨rfl, if_neg hvalid⟩
  · cases h

theorem mapM_ok (h : l.mapM f = .ok out) : List.Forall₂ (fun a b => f a = .ok b) l out := by
  induction l generalizing out with
  | nil =>
    cases h
    exact .nil
  | cons a l ih =>
    rw [List.mapM_cons] at h
    obtain ⟨b, ha, h⟩ := bind_ok h
    obtain ⟨_, hl, h⟩ := bind_ok h
    cases h
    exact .cons ha (ih hl)

theorem mapM_of_forall₂ (h : List.Forall₂ (fun a b => f a = .ok b) l out) : l.mapM f = .ok out := by
  induction h with
  | nil => rfl
  | cons ha _ ih =>
    rw [List.mapM_cons, ha, ih]
    rfl

theorem exists_of_forall₂ {R : α → β → Prop} (h : List.Forall₂ R l out) {b : β} (hb : b ∈ out) :
    ∃ a ∈ l, R a b := by
  induction h with
  | nil => cases hb
  | cons hab _ ih =>
    rcases List.mem_cons.mp hb with rfl | hb
    · exact ⟨_, List.mem_cons_self, hab⟩
    · obtain ⟨a, ha, hr⟩ := ih hb
      exact ⟨a, List.mem_cons_of_mem _ ha, hr⟩

theorem map_of_forall₂ {f : β → α} (h : List.Forall₂ (fun a b => f b = a) l out) :
    out.map f = l := by
  induction h with
  | nil => rfl
  | cons hab _ ih => rw [List.map_cons, ih, hab]

/-- The step of `validatedBindings`. -/
theorem validatedBinding_ok {name : String} {b : String × String}
    (h : (do return (name, ← validatedValue (value.lookup name))) = Except.ok b) :
    b.1 = name ∧ value.lookup name = some (.str b.2) ∧
      validatedValue (some (.str b.2)) = .ok b.2 := by
  obtain ⟨_, hv, h⟩ := bind_ok h
  cases h
  obtain ⟨hlookup, hitem⟩ := validatedValue_ok hv
  exact ⟨rfl, hlookup, hitem⟩

/-- What `validatedBindings` answers is of the names and the values that it was given. -/
theorem validatedBindings_ok {bindings : List (String × String)}
    (h : validatedBindings value = .ok (bindings, names)) :
    names = sorted (value.map Prod.fst) ∧ bindings.map Prod.fst = names ∧ names.Nodup ∧
      validatedBindingNames names = .ok names ∧
      ∀ b ∈ bindings, value.lookup b.1 = some (.str b.2) ∧
        validatedValue (some (.str b.2)) = .ok b.2 := by
  obtain ⟨_, hnames, h⟩ := bind_ok h
  obtain ⟨_, hmap, h⟩ := bind_ok h
  cases h
  obtain ⟨hsorted, hnodup, hvalid⟩ := validatedBindingNames_ok hnames
  have hall := mapM_ok hmap
  have hmaps : bindings.map Prod.fst = names :=
    map_of_forall₂ (hall.imp fun _ _ hb => (validatedBinding_ok hb).1)
  refine ⟨hsorted, hmaps, hnodup, hvalid, fun b hb => ?_⟩
  obtain ⟨_, -, hname⟩ := exists_of_forall₂ hall hb
  obtain ⟨rfl, hlookup, hitem⟩ := validatedBinding_ok hname
  exact ⟨hlookup, hitem⟩

/-- What `validatedBindings` answered, it answers again. -/
theorem validatedBindings_again {bindings : List (String × String)}
    (h : validatedBindings value = .ok (bindings, names)) :
    validatedBindings (bindings.map fun b => (b.1, .str b.2)) = .ok (bindings, names) := by
  obtain ⟨-, hmaps, hnodup, hvalid, hitems⟩ := validatedBindings_ok h
  have hfst : (bindings.map fun b => (b.1, Json.str b.2)).map Prod.fst = names := by
    rw [List.map_map, ← hmaps]
    rfl
  have hlookup : ∀ b ∈ bindings, (bindings.map fun b => (b.1, Json.str b.2)).lookup b.1 =
      some (.str b.2) := by
    subst hmaps
    clear h hvalid hitems hfst
    induction bindings with
    | nil => nofun
    | cons a l ih =>
      rw [List.map_cons, List.nodup_cons] at hnodup
      intro b hb
      rw [List.map_cons, List.lookup_cons]
      rcases List.mem_cons.mp hb with rfl | hb
      · simp
      · have hne : b.1 ≠ a.1 := fun heq => hnodup.1 (heq ▸ List.mem_map_of_mem hb)
        rw [beq_false_of_ne hne]
        exact ih hnodup.2 b hb
  unfold validatedBindings
  rw [hfst, hvalid]
  have hall : List.Forall₂ (fun name b => (do
      return (name, ← validatedValue ((bindings.map fun b => (b.1, Json.str b.2)).lookup name)) :
        Except Failure (String × String)) = .ok b) names bindings := by
    rw [← hmaps, List.forall₂_map_left_iff, List.forall₂_same]
    intro b hb
    rw [hlookup b hb, (hitems b hb).2]
    rfl
  simp only [bind, Except.bind] at hall ⊢
  rw [mapM_of_forall₂ hall]
  rfl

theorem normalizePreparationScope_ok {scope out : Option String}
    (h : normalizePreparationScope scope = .ok out) : out = scope := by
  cases scope with
  | none =>
    cases h
    rfl
  | some =>
    unfold normalizePreparationScope at h
    dsimp only at h
    split at h
    · cases h
      rfl
    · cases h

theorem normalizePreparation_ok {κ χ : Type} {P : Primitives κ χ} {input : PreparationInput}
    {origin : String} {scope : Option String} {p : Preparation}
    (h : normalizePreparation P input origin scope = .ok p) :
    p.organizationId = input.organizationId ∧ p.operationKey = input.operationKey ∧
      p.authorizedSpace = scope ∧
      runtimeInputPublicApplyCommitment P input.publicApply = .ok p.applyCommitment ∧
      validatedBindings (input.bindings.map fun b => (b.1, .str b.2)) =
        .ok (p.bindings, p.bindingNames) := by
  obtain ⟨-, -, h⟩ := bind_ok h
  obtain ⟨-, -, h⟩ := bind_ok h
  obtain ⟨-, h⟩ := guard_ok h
  obtain ⟨_, hcommitment, h⟩ := bind_ok h
  obtain ⟨⟨_, _⟩, hbindings, h⟩ := bind_ok h
  obtain ⟨_, hspace, h⟩ := bind_ok h
  cases h
  exact ⟨rfl, rfl, normalizePreparationScope_ok hspace, hcommitment, hbindings⟩

/-- What is read back of a sealed text is what was sealed. -/
theorem parse_sealedPayload {p : Preparation} {out : List (String × String)}
    (h : validatedBindings (p.bindings.map fun b => (b.1, .str b.2)) = .ok (p.bindings, names))
    {origin : String} {given : List String}
    (hparse : parseSealedPayload commitment origin given (sealedPayload p) = .ok out) :
    out = p.bindings ∧ given = names ∧ commitment = p.applyCommitment := by
  dsimp only [parseSealedPayload, sealedPayload] at hparse
  split at hparse
  · cases hparse
  next hfields =>
  have hcommitment : commitment = p.applyCommitment := by
    simp only [not_or, not_not] at hfields
    have hlookup : some (Json.str p.applyCommitment) = some (Json.str commitment) := hfields.2.2.1
    simpa only [Option.some.injEq, Json.str.injEq] using hlookup.symm
  have hvalues : ([("format", Json.str sealedPayloadFormat),
      ("applyCommitment", .str p.applyCommitment),
      ("canonicalPublicOrigin", .str p.canonicalPublicOrigin),
      ("values", .obj (p.bindings.map fun b => (b.1, .str b.2)))] :
        List (String × Json)).lookup "values" =
      some (.obj (p.bindings.map fun b => (b.1, .str b.2))) := rfl
  simp only [hvalues, h] at hparse
  split at hparse
  · next hnames =>
    cases hparse
    exact ⟨rfl, hnames.symm, hcommitment⟩
  · cases hparse

/-! ### One hash and one cipher -/

/-- An apply, for the runs below. -/
def someApply : PublicApply := ⟨"PUT", "/workers/w/versions/v", "*", "{}"⟩

/-- A hash that keeps what it is given, but for the framing of one apply. -/
def someSha256 (bytes : List UInt8) : String :=
  if bytes = framed someApply then
    "sha256:cc82bf4a2588410efc445e8c1bdcdcb8077ed4522d80b2be684ede16a9af000d"
  else "x" ++ String.ofList (bytes.map Char.ofUInt8)

/-- A cipher that keeps what it is given. -/
def somePrimitives : Primitives ℕ (ℕ × Nonce × Json × Json) where
  sha256 := someSha256
  documentSha256 _ := "sha256:77c4cb6e34d8774009f195aab1b038865923a183faefb060cd06fee3b418bc05"
  encrypt k n a p := (k, n, a, p)
  decrypt k n a c := if c.1 = k ∧ c.2.1 = n ∧ c.2.2.1 = a then some c.2.2.2 else none

theorem ofUInt8_injective : Function.Injective Char.ofUInt8 := by
  intro a b h
  have hval : a.toUInt32.toNat = b.toUInt32.toNat := congrArg (fun c => c.val.toNat) h
  rw [UInt8.toNat_toUInt32, UInt8.toNat_toUInt32] at hval
  exact UInt8.toNat_inj.mp hval

theorem someSha256_injective : Function.Injective somePrimitives.sha256 := by
  intro a b h
  have hhead : ∀ l : List Char, "x" ++ String.ofList l ≠
      "sha256:cc82bf4a2588410efc445e8c1bdcdcb8077ed4522d80b2be684ede16a9af000d" := by
    intro l heq
    have hchars := congrArg (fun s => s.toList.head?) heq
    simp only [String.toList_append, String.toList_ofList] at hchars
    cases hchars
  dsimp only [somePrimitives] at h
  unfold someSha256 at h
  split at h <;> split at h
  · next ha hb => rw [ha, hb]
  · exact absurd h.symm (hhead _)
  · exact absurd h (hhead _)
  · have hlist := congrArg String.toList h
    simp only [String.toList_append, String.toList_ofList] at hlist
    exact List.map_injective_iff.mpr ofUInt8_injective (List.append_cancel_left hlist)

theorem somePrimitives_unforgeable : somePrimitives.Unforgeable := by
  intro k n a p k' n' a' p' h
  dsimp only [somePrimitives] at h
  split at h
  · next hsame =>
    obtain ⟨hk, hn, ha⟩ := hsame
    exact ⟨hk.symm, hn.symm, ha.symm, (Option.some.inj h).symm⟩
  · cases h

end Takoserver.RuntimeInputs
