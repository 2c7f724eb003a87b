import Takoserver.Lib.Machine
import Takoserver.Ai.Journal

/-!
# Chat requests, step by step

The route of `POST /v1/ai/chat/completions` in `src/data-ai.ts`, from the
journal's legacy lookup to the reply, one awaited call at a time.  Any number of
requests run at once, each in a process of its own that may stop between any two
of its calls; a call may also throw, before or after it took effect.
-/

namespace Takoserver.Ai

/-! ### Replies out of the journal -/

/-- The reply of a settled request. -/
def resultResponse (r : AiSettledRequest) : Reply :=
  jsonResponse r.responseBody r.responseStatus
    [("x-request-id", r.requestId), ("x-takoserver-billed-micros", toString r.actualMicros),
     ("x-takoserver-money-policy", "usd-micros-v2")]

/-- The reply of a request settled in cents. -/
def legacyResultResponse (l : AiLegacySettledRequest) : Reply :=
  jsonResponse l.responseBody l.responseStatus
    [("x-request-id", l.requestId), ("x-takoserver-billed-minor", toString l.actualMinor),
     ("x-takoserver-billed-micros", toString ((minorToMicros l.actualMinor).getD 0)),
     ("x-takoserver-money-policy", "usd-cents-v1")]

/-- `requestStoreFailure`; an error that is not the store's reads as an unavailable state. -/
def requestStoreFailure : StoreError → Reply
  | .fingerprintConflict => openAiFailure "idempotency_key_conflict" 409 none
  | .stateConflict | .stateUnavailable => openAiFailure "request_state_unavailable" 503 none

/-- The reply while the money is not settled. -/
def settlementPending : Reply := openAiFailure "settlement_pending" 503 none

/-- The body of the reply when the wallet does not cover the ceiling. -/
def insufficientQuota : Json := openAiFailureBody "insufficient_quota" 402 none

/-! ### Where a request is -/

/-- The awaited call a request makes next. -/
inductive Stage where
  /-- `lookupCompletedLegacy`. -/
  | lookup
  /-- `claim`'s insert. -/
  | claim (model : AiModel) (p : AiPendingRequest)
  /-- `claim`'s read of the row another request inserted. -/
  | existing (model : AiModel)
  /-- `ledger.hold`. -/
  | hold (model : AiModel) (p : AiPendingRequest)
  /-- The `UPDATE` of a transition. -/
  | update (model : AiModel) (t : Transition)
  /-- The read of a transition that changed no row. -/
  | recheck (model : AiModel) (t : Transition)
  /-- `gateway.chat` is to be called. -/
  | chat (model : AiModel) (p : AiPendingRequest)
  /-- Its answer is awaited. -/
  | completion (model : AiModel) (p : AiPendingRequest)
  /-- `ledger.capture`. -/
  | capture (model : AiModel) (r : AiSettledRequest)
  /-- `ledger.release`. -/
  | release (model : AiModel) (r : AiSettledRequest)
  | recordUsage (model : AiModel) (r : AiSettledRequest)
  | replied (reply : Reply)
  /-- The process stopped. -/
  | stopped
  deriving DecidableEq

/-- A request, in the process that serves it. -/
structure Worker where
  request : ChatRequest
  catalog : Catalog
  /-- The id it drew. -/
  requestId : Option String := none
  stage : Stage

/-- The organization and the key. -/
def ChatRequest.scope (r : ChatRequest) : Scope := ⟨r.organizationId, r.idempotencyKey.getD ""⟩

/-- `usage_events`, as `recordUsage` fills it. -/
structure AiUsage where
  requestId : String
  organizationId : String
  model : String
  inputTokens : ℕ
  outputTokens : ℕ

/-- A call of `gateway.chat`. -/
structure ChatCall where
  scope : Scope
  requestId : String
  deriving DecidableEq

/-- What the requests share, and the calls the upstream has received. -/
structure Shared where
  journal : Journal := []
  ledger : Funds.Ledger := []
  usage : List AiUsage := []
  calls : List ChatCall := []

/-- Whether an awaited call throws, and whether it took effect. -/
inductive Fault where
  | none
  | refused
  | lostReply

/-- What a step finds outside the model. -/
structure Circumstance where
  now : Instant
  fault : Fault := .none
  /-- `randomId()`. -/
  randomId : String := ""
  /-- The ledger covers a hold, or admits a settlement. -/
  admitted : Bool := true
  /-- The upstream's answer; `none` where `gateway.chat` throws. -/
  answer : Option Json := none

/-! ### The way on -/

/-- An upstream that failed costs nothing. -/
def failedOutcome (p : AiPendingRequest) (code : String) : AiSettledRequest :=
  { phase := .staged, requestId := p.requestId, ceilingMicros := p.ceilingMicros, actualMicros := 0,
    responseStatus := 502, responseBody := openAiFailureBody code 502 none, usageModel := none,
    inputTokens := 0, outputTokens := 0 }

/-- `MAX_DURABLE_RESULT_BYTES`. -/
def maxDurableResultBytes : ℕ := 64 * 1024

/-- What is staged for an upstream's answer. -/
def outcome (E : Codec) (model : AiModel) (p : AiPendingRequest) (answer : Option Json) :
    AiSettledRequest :=
  match answer with
  | none => failedOutcome p "upstream_unavailable"
  | some value =>
    match parseCompletion value model.id with
    | none => failedOutcome p "invalid_upstream_response"
    | some completion =>
      if maxDurableResultBytes < E.durableJsonBytes completion.body then
        failedOutcome p "invalid_upstream_response"
      else if completion.inputTokens ≤ model.limits.maxInputTokens ∧
          completion.outputTokens ≤ model.limits.maxOutputTokens then
        match tokenCharge completion.inputTokens completion.outputTokens model with
        | none => failedOutcome p "upstream_unavailable"
        | some actualMicros =>
          if actualMicros ≤ p.ceilingMicros then
            { phase := .staged, requestId := p.requestId, ceilingMicros := p.ceilingMicros,
              actualMicros, responseStatus := 200, responseBody := completion.body,
              usageModel := some model.id, inputTokens := completion.inputTokens,
              outputTokens := completion.outputTokens }
          else failedOutcome p "usage_exceeded_reserved_limit"
      else failedOutcome p "usage_exceeded_reserved_limit"

/-- `settleAiRequest` once money has moved. -/
def settled (model : AiModel) (r : AiSettledRequest) : Stage :=
  if r.usageModel.isSome then .recordUsage model r else .update model (.finish r)

/-- `settleAiRequest` once the charge is captured. -/
def captured (model : AiModel) (r : AiSettledRequest) : Stage :=
  if r.actualMicros < r.ceilingMicros then .release model r else settled model r

/-- `settleAiRequest`. -/
def settle (model : AiModel) (r : AiSettledRequest) : Stage :=
  if 0 < r.actualMicros then .capture model r else captured model r

/-- `resumeAiRequest`, and the receipt of the first money policy before it. -/
def resume (model : AiModel) : AiRequestRecord → Stage
  | .legacy l => .replied (legacyResultResponse l)
  | .rejected responseStatus responseBody => .replied (jsonResponse responseBody responseStatus [])
  | .settled r =>
    match r.phase with
    | .completed => .replied (resultResponse r)
    | .staged => settle model r
  | .pending p =>
    match p.phase with
    | .claimed => .replied (openAiFailure "idempotency_request_in_progress" 409 none)
    | .dispatched => .replied (openAiFailure "idempotency_request_indeterminate" 409 none)
    | .ready => .update model (.dispatched p)

namespace Transition

/-- What follows a transition that answers. -/
def next (t : Transition) (model : AiModel) : Stage :=
  match t with
  | ready p => resume model (.pending { p with phase := .ready })
  | dispatched p => .chat model { p with phase := .dispatched }
  | stage r => settle model { r with phase := .staged }
  | finish r => .replied (resultResponse { r with phase := .completed })
  | reject responseStatus responseBody => .replied (jsonResponse responseBody responseStatus [])

/-- The reply to a transition that throws. -/
def failure (t : Transition) (e : StoreError) : Reply :=
  match t with
  | finish _ => settlementPending
  | _ => requestStoreFailure e

end Transition

/-- The stage after an insert that succeeded: a request that costs nothing holds nothing. -/
def claimed (model : AiModel) (p : AiPendingRequest) : Stage :=
  if 0 < p.ceilingMicros then .hold model p else .update model (.ready p)

/-- The stage after an awaited call threw. -/
def Stage.thrown : Stage → Stage
  | .lookup | .claim .. | .existing _ => .replied (requestStoreFailure .stateUnavailable)
  | .hold .. => .replied .thrown
  | .update _ t | .recheck _ t => .replied (t.failure .stateUnavailable)
  | .completion model p => .update model (.stage (failedOutcome p "upstream_unavailable"))
  | .capture .. | .release .. | .recordUsage .. => .replied settlementPending
  | stage => stage

namespace Worker

variable (w : Worker)

/-- The scope of its request. -/
def scope : Scope := w.request.scope

/-- The worker at another stage. -/
def atStage (stage : Stage) : Worker := { w with stage }

/-- The awaited call of a request, when it does not throw. -/
def perform (E : Codec) (c : Circumstance) (db : Shared) : Worker × Shared :=
  let fingerprint := E.canonicalDigest w.request.body
  match w.stage with
  | .lookup =>
    match lookupCompletedLegacy db.journal w.scope fingerprint c.now with
    | .error e => (w.atStage (.replied (requestStoreFailure e)), db)
    | .ok (some l) => (w.atStage (.replied (legacyResultResponse l)), db)
    | .ok none =>
      match planRequest E w.catalog w.request with
      | .error reply => (w.atStage (.replied reply), db)
      | .ok (model, ceilingMicros) =>
        let requestId := "ai_" ++ c.randomId
        ({ w with requestId := some requestId,
                  stage := .claim model { phase := .claimed, requestId, ceilingMicros } }, db)
  | .claim model p =>
    match insertClaim db.journal w.scope fingerprint p c.now with
    | some journal => (w.atStage (claimed model p), { db with journal })
    | none => (w.atStage (.existing model), db)
  | .existing model =>
    match read db.journal w.scope fingerprint c.now with
    | .error e => (w.atStage (.replied (requestStoreFailure e)), db)
    | .ok record => (w.atStage (resume model record), db)
  | .hold model p =>
    match Funds.hold db.ledger w.scope.organizationId p.requestId p.ceilingMicros c.admitted with
    | (.ok, ledger) => (w.atStage (.update model (.ready p)), { db with ledger })
    | (.declined, ledger) =>
      (w.atStage (.update model (.reject 402 insufficientQuota)), { db with ledger })
    | (.thrown, ledger) => (w.atStage (.replied .thrown), { db with ledger })
  | .update model t =>
    match transition db.journal w.scope fingerprint t c.now with
    | some journal => (w.atStage (t.next model), { db with journal })
    | none => (w.atStage (.recheck model t), db)
  | .recheck model t =>
    match read db.journal w.scope fingerprint c.now with
    | .error e => (w.atStage (.replied (t.failure e)), db)
    | .ok record =>
      (w.atStage (if record = t.record then t.next model else .replied (t.failure .stateConflict)), db)
  | .chat model p =>
    (w.atStage (.completion model p), { db with calls := db.calls ++ [⟨w.scope, p.requestId⟩] })
  | .completion model p => (w.atStage (.update model (.stage (outcome E model p c.answer))), db)
  | .capture model r =>
    match Funds.settle db.ledger .capture w.scope.organizationId r.requestId r.actualMicros
        c.admitted with
    | (.ok, ledger) => (w.atStage (captured model r), { db with ledger })
    | (_, ledger) => (w.atStage (.replied settlementPending), { db with ledger })
  | .release model r =>
    match Funds.settle db.ledger .release w.scope.organizationId r.requestId
        (r.ceilingMicros - r.actualMicros) c.admitted with
    | (.ok, ledger) => (w.atStage (settled model r), { db with ledger })
    | (_, ledger) => (w.atStage (.replied settlementPending), { db with ledger })
  | .recordUsage model r =>
    let event : AiUsage :=
      { requestId := r.requestId, organizationId := w.scope.organizationId,
        model := r.usageModel.getD "", inputTokens := r.inputTokens,
        outputTokens := r.outputTokens }
    let usage := if db.usage.any fun u => u.requestId = event.requestId then db.usage
      else db.usage ++ [event]
    (w.atStage (.update model (.finish r)), { db with usage })
  | .replied _ | .stopped => (w, db)

/-- The next call of a request.  `gateway.chat` counts as called even where it throws. -/
def step (E : Codec) (c : Circumstance) (db : Shared) : Worker × Shared :=
  match w.stage, c.fault with
  | .chat .., _ | _, .none => w.perform E c db
  | _, .refused => (w.atStage w.stage.thrown, db)
  | _, .lostReply => (w.atStage w.stage.thrown, (w.perform E c db).2)

end Worker

/-! ### Any number of requests -/

/-- The processes over one store. -/
structure System where
  db : Shared := {}
  workers : List Worker := []

/-- One move: an arrival, a step, a crash. -/
inductive Action where
  /-- A request arrives at a process. -/
  | arrive (r : ChatRequest) (cat : Catalog)
  /-- A request makes its next call. -/
  | step (n : ℕ) (c : Circumstance)
  /-- A process stops. -/
  | crash (n : ℕ)

/-- The receipts of the first money policy the journal starts with. -/
structure Receipts where
  rows : Journal
  legacy : ∀ row ∈ rows, ∃ l, row.record = .legacy l
  nodup : (rows.map Row.scope).Nodup

/-- `randomId` does not return what it has returned before. -/
def System.isFresh (s : System) (randomId : String) : Bool :=
  s.workers.all fun w => decide (w.requestId ≠ some ("ai_" ++ randomId))

/-- The machine of all interleavings of chat requests. -/
def requests (E : Codec) (receipts : Receipts) : Machine System Action where
  init := { db := { journal := receipts.rows } }
  next s
    | .arrive r cat =>
      let stage := match invalidRequest? r with
        | some reply => .replied reply
        | none => .lookup
      some { s with workers := s.workers ++ [{ request := r, catalog := cat, stage }] }
    | .step n c => s.workers[n]?.bind fun w =>
      if s.isFresh c.randomId then
        let result := w.step E c s.db
        some { db := result.2, workers := s.workers.set n result.1 }
      else none
    | .crash n => s.workers[n]?.map fun w =>
      { s with workers := s.workers.set n (w.atStage .stopped) }

end Takoserver.Ai
