import Takoserver.Funds
import Takoserver.Text

/-!
# Chat requests and their price

What `src/data-ai.ts` checks of a chat request and of the completion an
upstream returns, what a number of tokens costs, and the replies it builds.
-/

namespace Takoserver.Ai

/-- What the module takes from elsewhere: the digest of canonical JSON and its length in bytes. -/
structure Codec where
  canonicalDigest : Json → String
  durableJsonBytes : Json → ℕ

/-! ### Numbers and texts -/

/-- `nonNegativeInteger`. -/
def nonNegativeInteger? : Json → Option ℕ
  | .num n => if n.den = 1 ∧ 0 ≤ n ∧ n.num ≤ maxSafeInteger then some n.num.toNat else none
  | _ => none

/-- `positiveInteger`. -/
def positiveInteger? (value : Json) : Option ℕ :=
  (nonNegativeInteger? value).filter fun n => decide (0 < n)

/-! ### The catalog -/

/-- The token limits of a model. -/
structure Limits where
  maxInputTokens : ℕ
  maxOutputTokens : ℕ
  deriving DecidableEq

/-- The prices of a model. -/
structure Price where
  inputMinorPerMillionTokens : ℕ
  outputMinorPerMillionTokens : ℕ
  deriving DecidableEq

/-- A model of the catalog. -/
structure AiModel where
  id : String
  created : ℕ
  ownedBy : String
  limits : Limits
  price : Price
  deriving DecidableEq

/-- The micros of a number of tokens: hundredths of a cent per million, rounded up once. -/
def tokenMicros (inputTokens outputTokens : ℕ) (price : Price) : ℕ :=
  let centsRate := inputTokens * price.inputMinorPerMillionTokens +
    outputTokens * price.outputMinorPerMillionTokens
  (centsRate * 10000 + 999999) / 1000000

/-- `tokenCharge`; `none` where `safeMicros` throws. -/
def tokenCharge (inputTokens outputTokens : ℕ) (model : AiModel) : Option ℕ :=
  safeMicros (tokenMicros inputTokens outputTokens model.price)

/-- `MODEL_ID`. -/
def isModelId (id : String) : Bool :=
  match id.toList with
  | [] => false
  | c :: cs => c.isAlphanum && decide (cs.length ≤ 127) &&
      cs.all fun c => c.isAlphanum || "._:/-".toList.contains c

/-- What `validateModels` asks of one model. -/
def AiModel.isValid (m : AiModel) : Bool :=
  isModelId m.id && decide (m.created ≤ maxSafeInteger) &&
    decide (1 ≤ Text.utf16Length m.ownedBy ∧ Text.utf16Length m.ownedBy ≤ 128) &&
    decide (0 < m.limits.maxInputTokens ∧ m.limits.maxInputTokens ≤ maxSafeInteger) &&
    decide (0 < m.limits.maxOutputTokens ∧ m.limits.maxOutputTokens ≤ maxSafeInteger) &&
    decide (m.price.inputMinorPerMillionTokens ≤ maxSafeInteger ∧
      m.price.outputMinorPerMillionTokens ≤ maxSafeInteger) &&
    (tokenCharge m.limits.maxInputTokens m.limits.maxOutputTokens m).isSome

/-- `validateModels`: every model is valid and no id occurs twice. -/
def validateModels (models : List AiModel) : Bool :=
  models.all AiModel.isValid && decide (models.map AiModel.id).Nodup

/-- The models a process serves; a catalog that is not valid is refused when it starts. -/
structure Catalog where
  models : List AiModel
  valid : validateModels models = true

theorem tokenMicros_mono {i i' o o' : ℕ} (price : Price) (hi : i ≤ i') (ho : o ≤ o') :
    tokenMicros i o price ≤ tokenMicros i' o' price := by
  unfold tokenMicros
  have hcents : i * price.inputMinorPerMillionTokens + o * price.outputMinorPerMillionTokens ≤
      i' * price.inputMinorPerMillionTokens + o' * price.outputMinorPerMillionTokens := by
    gcongr
  dsimp only
  omega

/-- More tokens never cost less. -/
theorem tokenCharge_mono {i i' o o' c' : ℕ} {m : AiModel} (hi : i ≤ i') (ho : o ≤ o')
    (h : tokenCharge i' o' m = some c') : ∃ c, tokenCharge i o m = some c ∧ c ≤ c' := by
  have hle := tokenMicros_mono m.price hi ho
  simp only [tokenCharge, safeMicros, Option.ite_none_right_eq_some, Option.some.injEq] at h ⊢
  obtain ⟨_, rfl⟩ := h
  exact ⟨_, ⟨by omega, rfl⟩, hle⟩

/-- Within its limits a model of a catalog has a price. -/
theorem tokenCharge_of_valid {cat : Catalog} {m : AiModel} (hm : m ∈ cat.models) {i o : ℕ}
    (hi : i ≤ m.limits.maxInputTokens) (ho : o ≤ m.limits.maxOutputTokens) :
    (tokenCharge i o m).isSome := by
  have hvalid := cat.valid
  simp only [validateModels, Bool.and_eq_true, List.all_eq_true] at hvalid
  have hmodel := hvalid.1 m hm
  simp only [AiModel.isValid, Bool.and_eq_true] at hmodel
  obtain ⟨_, hc'⟩ := Option.isSome_iff_exists.mp hmodel.2
  obtain ⟨c, hc, -⟩ := tokenCharge_mono hi ho hc'
  rw [hc]
  rfl

/-! ### Replies -/

/-- A reply, or the exception the route lets through. -/
inductive Reply where
  | response (body : Json) (status : ℕ) (headers : List (String × String))
  | thrown
  deriving DecidableEq

/-- `code.replaceAll("_", " ")`. -/
def messageOf (code : String) : String := code.map fun c => if c = '_' then ' ' else c

/-- The body of a failure. -/
def openAiFailureBody (code : String) (status : ℕ) (param : Option String) : Json :=
  .obj [("error", .obj [
    ("message", .str (messageOf code)),
    ("type", .str (if 500 ≤ status then "server_error" else "invalid_request_error")),
    ("param", (param.map Json.str).getD .null),
    ("code", .str code)])]

/-- A reply with a JSON body. -/
def jsonResponse (body : Json) (status : ℕ) (headers : List (String × String)) : Reply :=
  .response body status headers

/-- A failure as a reply. -/
def openAiFailure (code : String) (status : ℕ) (param : Option String) : Reply :=
  jsonResponse (openAiFailureBody code status param) status []

/-! ### Requests -/

/-- An authorized `POST` of chat completions whose body is a JSON object. -/
structure ChatRequest where
  organizationId : String
  idempotencyKey : Option String
  /-- `x-takoserver-ai-pricing-revision`. -/
  expectedPricingRevision : Option String
  body : Json

/-- The messages of a request. -/
def maxMessages : ℕ := 256

/-- `validMessages`. -/
def validMessages : Option Json → Bool
  | some (.arr entries) =>
    decide (1 ≤ entries.length ∧ entries.length ≤ maxMessages) && entries.all fun entry =>
      match entry with
      | .obj _ =>
        (match entry.get? "role" with
          | some (.str role) => ["system", "user", "assistant", "tool"].contains role
          | _ => false) &&
        (match entry.get? "content" with
          | some (.str content) => decide (Text.utf16Length content ≤ 256 * 1024)
          | some (.arr content) => decide (content.length ≤ 64)
          | _ => false)
      | _ => false
  | _ => false

/-- `IDEMPOTENCY_KEY`. -/
def isIdempotencyKey (key : String) : Bool :=
  decide (1 ≤ key.toList.length ∧ key.toList.length ≤ 128) &&
    key.toList.all fun c => decide (0x21 ≤ c.toNat ∧ c.toNat ≤ 0x7e)

/-- What the checks before the journal is read refuse. -/
def invalidRequest? (r : ChatRequest) : Option Reply :=
  if !validMessages (r.body.get? "messages") then
    some (openAiFailure "invalid_messages" 400 (some "messages"))
  else if (r.body.get? "stream").any fun stream => decide (stream ≠ .bool false) then
    some (openAiFailure "stream_not_supported" 400 (some "stream"))
  else
    match r.idempotencyKey with
    | none => some (openAiFailure "idempotency_key_required" 400 none)
    | some key =>
      if isIdempotencyKey key then none
      else some (openAiFailure "invalid_idempotency_key" 400 none)

/-- `requestedModel`. -/
def requestedModel (body : Json) (models : List AiModel) : Option AiModel :=
  match body.get? "model" with
  | some (.str id) => models.find? fun m => m.id = id
  | _ => none

/-- `outputLimit`. -/
def outputLimit (value : Option Json) (model : AiModel) : Option ℕ :=
  match value with
  | none => some model.limits.maxOutputTokens
  | some value =>
    (positiveInteger? value).filter fun n => decide (n ≤ model.limits.maxOutputTokens)

/-- The pricing revision of `modelCommercialTerms`. -/
def pricingRevision (E : Codec) (m : AiModel) : String :=
  E.canonicalDigest (.obj [
    ("id", .str m.id),
    ("limits", .obj [
      ("maxInputTokens", .num m.limits.maxInputTokens),
      ("maxOutputTokens", .num m.limits.maxOutputTokens)]),
    ("price", .obj [
      ("inputMinorPerMillionTokens", .num m.price.inputMinorPerMillionTokens),
      ("outputMinorPerMillionTokens", .num m.price.outputMinorPerMillionTokens)]),
    ("money_policy", .str "usd-micros-v2")])

/-- The model of a request and the ceiling of its charge, or the refusal of the checks made once
the journal has no completed receipt. -/
def planRequest (E : Codec) (cat : Catalog) (r : ChatRequest) : Except Reply (AiModel × ℕ) :=
  match requestedModel r.body cat.models with
  | none => .error (openAiFailure "model_not_found" 404 (some "model"))
  | some model =>
    match outputLimit (r.body.get? "max_tokens") model with
    | none => .error (openAiFailure "invalid_max_tokens" 400 (some "max_tokens"))
    | some maxOutputTokens =>
      if r.expectedPricingRevision.any fun revision => decide (revision ≠ pricingRevision E model)
      then .error (openAiFailure "pricing_revision_conflict" 409 (some "model"))
      else
        match tokenCharge model.limits.maxInputTokens maxOutputTokens model with
        | none => .error .thrown
        | some ceilingMicros => .ok (model, ceilingMicros)

theorem mem_of_requestedModel {body : Json} {models : List AiModel} {model : AiModel}
    (h : requestedModel body models = some model) : model ∈ models := by
  unfold requestedModel at h
  split at h
  · exact List.mem_of_find?_eq_some h
  · cases h

/-- A catalog that is valid prices every request: none throws. -/
theorem planRequest_error {E : Codec} {cat : Catalog} {r : ChatRequest} {reply : Reply}
    (h : planRequest E cat r = .error reply) :
    ∃ code status param, reply = openAiFailure code status param := by
  unfold planRequest at h
  split at h
  · exact ⟨_, _, _, (Except.error.inj h).symm⟩
  next model hmodel =>
  split at h
  · exact ⟨_, _, _, (Except.error.inj h).symm⟩
  next maxOutputTokens hlimit =>
  split at h
  · exact ⟨_, _, _, (Except.error.inj h).symm⟩
  have hm := mem_of_requestedModel hmodel
  have ho : maxOutputTokens ≤ model.limits.maxOutputTokens := by
    unfold outputLimit at hlimit
    split at hlimit
    · exact (Option.some.inj hlimit).ge
    · simpa using (Option.filter_eq_some_iff.mp hlimit).2
  have hprice := tokenCharge_of_valid hm le_rfl ho
  split at h
  · next hnone => simp [hnone] at hprice
  · cases h

theorem planRequest_ok {E : Codec} {cat : Catalog} {r : ChatRequest} {model : AiModel}
    {ceilingMicros : ℕ} (h : planRequest E cat r = .ok (model, ceilingMicros)) :
    ceilingMicros ≤ maxSafeInteger := by
  unfold planRequest at h
  split at h
  · cases h
  split at h
  · cases h
  · split at h
    · cases h
    · split at h
      · cases h
      · next hcharge =>
        obtain ⟨-, rfl⟩ := Prod.mk.inj (Except.ok.inj h)
        obtain ⟨_, heq⟩ := Option.ite_none_right_eq_some.mp hcharge
        rwa [← Option.some.inj heq]

/-- **A request is refused by a reply of its own, or priced**: its ceiling covers the charge of
every completion within the limits that the request is held to. -/
theorem request_priced (E : Codec) (cat : Catalog) (r : ChatRequest) :
    (∃ code status param, planRequest E cat r = .error (openAiFailure code status param)) ∨
      ∃ model maxOutputTokens ceilingMicros,
        planRequest E cat r = .ok (model, ceilingMicros) ∧ model ∈ cat.models ∧
        outputLimit (r.body.get? "max_tokens") model = some maxOutputTokens ∧
        ceilingMicros ≤ maxSafeInteger ∧
        ∀ i o, i ≤ model.limits.maxInputTokens → o ≤ maxOutputTokens →
          ∃ c, tokenCharge i o model = some c ∧ c ≤ ceilingMicros := by
  cases hplan : planRequest E cat r with
  | error reply =>
    obtain ⟨code, status, param, rfl⟩ := planRequest_error hplan
    exact Or.inl ⟨code, status, param, rfl⟩
  | ok plan =>
    obtain ⟨model, ceilingMicros⟩ := plan
    have hceiling := planRequest_ok hplan
    unfold planRequest at hplan
    split at hplan
    · cases hplan
    next hmodel =>
    split at hplan
    · cases hplan
    next maxOutputTokens hlimit =>
    split at hplan
    · cases hplan
    split at hplan
    · cases hplan
    next hcharge =>
    cases hplan
    exact Or.inr ⟨model, maxOutputTokens, ceilingMicros, rfl, mem_of_requestedModel hmodel, hlimit,
      hceiling, fun i o hi ho => tokenCharge_mono hi ho hcharge⟩

/-! ### Completions -/

/-- What is kept of an upstream's answer. -/
structure Completion where
  body : Json
  inputTokens : ℕ
  outputTokens : ℕ

/-- What `parseCompletion` asks of one choice. -/
def choiceIsValid (choice : Json) : Bool :=
  match choice.get? "message" with
  | some (.obj message) =>
    decide ((Json.obj message).get? "role" = some (.str "assistant")) &&
      (match (Json.obj message).get? "content" with
        | none | some .null | some (.str _) => true
        | _ => false)
  | _ => false

/-- `Number.isSafeInteger`. -/
def isSafeInteger : Json → Bool
  | .num n => decide (n.den = 1 ∧ -(maxSafeInteger : ℤ) ≤ n.num ∧ n.num ≤ maxSafeInteger)
  | _ => false

/-- What is read out of an upstream's answer. -/
def parseCompletion (value : Json) (model : String) : Option Completion :=
  if value.get? "object" ≠ some (.str "chat.completion") ∨
      value.get? "model" ≠ some (.str model) then none
  else
    match value.get? "id", value.get? "created", value.get? "choices", value.get? "usage" with
    | some (.str _), some created, some (.arr choices), some (.obj members) =>
      if !isSafeInteger created || choices.isEmpty || !choices.all choiceIsValid then none
      else
        let usage := Json.obj members
        match (usage.get? "prompt_tokens").bind nonNegativeInteger?,
            (usage.get? "completion_tokens").bind nonNegativeInteger?,
            (usage.get? "total_tokens").bind nonNegativeInteger? with
        | some inputTokens, some outputTokens, some totalTokens =>
          if totalTokens = inputTokens + outputTokens then
            some ⟨value, inputTokens, outputTokens⟩
          else none
        | _, _, _ => none
    | _, _, _, _ => none

end Takoserver.Ai
