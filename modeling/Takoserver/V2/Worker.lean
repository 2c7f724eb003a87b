import Takoserver.V2.Store

/-!
# Workers

`runNext` of `src/takoform-v2/engine.ts`, one statement at a time: a worker scans
for a candidate, claims it, reads it again, writes the dispatch fence, checks that
it still holds the claim, calls the backend and settles.  Between any two of these
it may stop for good, or for so long that its lease expires and another worker
claims the same Operation.

A system has any number of workers on one database.  Requests (acceptances and
replenishments) reach the database in between.  Two logs record what the database
cannot: `calls`, every call of a backend, and `fences`, every dispatch fence a worker
was told it had written.
-/

namespace Takoserver.V2

/-- `V2EngineOptions`, as far as a worker reads them. -/
structure EngineOptions where
  leaseMilliseconds : ℕ := 60000
  replayWindowSeconds : ℕ
  lease_pos : 1 ≤ leaseMilliseconds := by decide
  replayWindow_pos : 1 ≤ replayWindowSeconds := by decide

/-- `retryMs`. -/
def EngineOptions.retryMs (options : EngineOptions) : ℕ := max 1000 options.leaseMilliseconds

/-- `V2PrivateInputMap`. -/
abbrev PrivateInputMap := List (String × String)

/-- `V2Backend`, less its two calls. -/
structure Backend where
  id : String
  targetKey : String

/-- `V2Execution`. -/
structure Execution where
  operationId : Uuid
  leaseToken : Uuid
  backendKey : Uuid
  backendId : String
  targetKey : String
  resourceUid : Uuid
  principal : String
  action : Action
  generation : ℕ
  form : String
  space : String
  name : String
  spec : Json
  previousObserved : Json
  previousOutput : Json
  privateInputs : Option PrivateInputMap

/-- `V2BackendResult`; a call that throws is `unknown` with the engine's own text. -/
inductive BackendResult where
  | complete (observed output : Json)
  | continues
  | noEffect (code message : String)
  | partially (code message : String) (observed output : Option Json)
  | unknown (code message : Option String)

/-- What the `catch` of `runNext` makes of a throw. -/
def BackendResult.thrown : BackendResult :=
  .unknown (some "outcome_unconfirmed") (some "Execution outcome is not yet confirmed")

/-- What `runNext` settles a result with. -/
def BackendResult.settlement (options : EngineOptions) (nowMs : Instant) :
    BackendResult → Db.Settlement
  | .complete observed output =>
      { status := .succeeded, effect := .complete, now := nowMs
        retainUntil := nowMs + options.replayWindowSeconds * 1000
        observed := some observed, output := some output }
  | .partially code message observed output =>
      { status := .failed, effect := .partially, now := nowMs
        retainUntil := nowMs + options.replayWindowSeconds * 1000
        error := some (code, message), observed := observed, output := output }
  | .noEffect code message =>
      { status := .failed, effect := .none, now := nowMs
        retainUntil := nowMs + options.replayWindowSeconds * 1000
        error := some (code, message) }
  | .continues =>
      { status := .reconciling, effect := .unknown, now := nowMs
        retainUntil := nowMs + options.replayWindowSeconds * 1000
        nextAttemptAtMs := some (nowMs + 1000) }
  | .unknown code message =>
      { status := .reconciling, effect := .unknown, now := nowMs
        retainUntil := nowMs + options.replayWindowSeconds * 1000
        nextAttemptAtMs := some (nowMs + options.retryMs)
        -- an empty code or message is as good as none
        error := match code.filter (· ≠ ""), message.filter (· ≠ "") with
          | some code, some message => some (code, message)
          | _, _ => some ("outcome_unconfirmed", "Execution outcome is not yet confirmed") }

/-- Where a worker stands in `runNext`.  After its claim it carries `claimedFrom`, the
status its claim found, which the source does not keep. -/
inductive Worker where
  /-- About to look for the next candidate, after so many that nobody serves. -/
  | scanning (attempts : ℕ)
  /-- Has a candidate, about to read its Resource. -/
  | selecting (candidate : OperationRow) (nowMs : Instant) (attempts : ℕ)
  /-- No backend serves the candidate: about to defer it. -/
  | deferring (id : Uuid) (nowMs : Instant) (attempts : ℕ)
  /-- About to claim. -/
  | claiming (id : Uuid)
  /-- Holds a claim, about to read the claimed row. -/
  | claimed (id token : Uuid) (claimedFrom : Status)
  /-- About to read its Resource. -/
  | targeting (row : OperationRow) (token : Uuid) (claimedFrom : Status)
  /-- About to read the private inputs held for it. -/
  | unsealing (row : OperationRow) (target : ResourceRow) (token : Uuid) (claimedFrom : Status)
  /-- About to fail it as unverifiable. -/
  | unverifiable (id token : Uuid)
  /-- About to make it wait for inputs. -/
  | waiting (id token : Uuid) (names : String) (reason : InputRequiredReason)
  /-- About to write the dispatch fence. -/
  | fencing (execution : Execution) (claimedFrom : Status)
  /-- About to check the claim; `mustReconcile`, or the fence was just written. -/
  | owning (execution : Execution) (mustReconcile : Bool) (claimedFrom : Status)
  /-- About to call the backend. -/
  | calling (execution : Execution) (mustReconcile : Bool) (claimedFrom : Status)
  /-- About to settle. -/
  | settling (id token : Uuid) (result : BackendResult)
  /-- About to read the row it answers with. -/
  | replying (id : Uuid)

/-- Between two calls of `runNext`. -/
def Worker.idle : Worker := .scanning 0

/-- What a step reads from outside the database: the clock, the deployed Forms, the
custody of private inputs and the backend. -/
structure Outside where
  nowMs : Instant := 0
  /-- `retainedOrCompleteForm` of the Resource's Form. -/
  selected : Option Backend := none
  /-- Custody is configured and has the comparison material. -/
  material : Bool := false
  unsealed : Option PrivateInputMap := none
  /-- `matchesPrivateInputs`; `none` where it cannot tell. -/
  matched : Option Bool := none
  result : BackendResult := .thrown

/-- What `runNext` does about the private inputs of a first dispatch. -/
inductive Custody where
  | unverifiable
  | waiting (names : String) (reason : InputRequiredReason)
  | proceed (inputs : PrivateInputMap)

/-- The private input branch of `runNext`. -/
def custody (held : Option PrivateInputRow) (outside : Outside) : Custody :=
  match held with
  | none => .unverifiable
  | some row =>
    if !outside.material then .unverifiable
    else
      let live := row.transfer.filter fun transfer => decide (outside.nowMs < transfer.expiresAtMs)
      let wait : Custody :=
        .waiting row.names (if live.isSome then .unavailable else .expired)
      match live.filter fun transfer =>
          transfer.keyId != "" && transfer.nonce != "" && transfer.ciphertext != "" with
      | none => wait
      | some _ =>
        match outside.unsealed with
        | none => wait
        | some inputs =>
          match outside.matched with
          | none => .unverifiable
          | some true => .proceed inputs
          | some false => wait

/-- The `V2Execution` of a claimed row. -/
def execution (row : OperationRow) (target : ResourceRow) (token : Uuid)
    (privateInputs : Option PrivateInputMap) : Execution where
  operationId := row.id
  leaseToken := token
  backendKey := row.backendKey
  backendId := row.backendId
  targetKey := row.targetKey
  resourceUid := target.uid
  principal := row.principal
  action := row.action
  generation := row.generation
  form := target.formUrl
  space := target.space
  name := target.name
  spec := row.acceptedSpec
  previousObserved := target.observed
  previousOutput := target.output
  privateInputs := privateInputs

/-- A call of the backend. -/
structure Call where
  worker : ℕ
  /-- `backend.reconcile`; otherwise `backend.execute`. -/
  reconcile : Bool
  execution : Execution
  claimedFrom : Status

/-- A dispatch fence a worker was told it had written. -/
structure Fence where
  worker : ℕ
  operationId : Uuid
  token : Uuid

/-- How a call of `runNext` ends. -/
inductive Reply where
  | null
  | operation (row : OperationRow)
  | temporarilyUnavailable
  /-- A statement threw. -/
  | thrown

/-- What one step of a worker leaves. -/
structure Outcome where
  worker : Worker
  db : Db
  call : Option Call := none
  fence : Option Fence := none
  reply : Option Reply := none

/-- The call of `runNext` ends. -/
def Outcome.ends (db : Db) (reply : Reply) : Outcome :=
  { worker := .idle, db := db, reply := some reply }

/-- A conditional statement: a throw ends the call of `runNext`. -/
def statement (db : Db) (result : Option (Db × Bool)) (yes no : Db → Outcome) : Outcome :=
  match result with
  | none => .ends db .thrown
  | some (db', true) => yes db'
  | some (db', false) => no db'

/-- The next statement of worker `w`; `token` is the value `crypto.randomUUID()` returns. -/
def stepWorker (options : EngineOptions) (w : ℕ) (token : Uuid) (db : Db) (outside : Outside) :
    Worker → Outcome
  | .scanning attempts =>
      if attempts < 100 then
        match db.nextCandidate outside.nowMs with
        | none => .ends db (if attempts = 0 then .null else .temporarilyUnavailable)
        | some candidate =>
            { worker := .selecting candidate outside.nowMs attempts, db := db }
      else .ends db .temporarilyUnavailable
  | .selecting candidate nowMs attempts =>
      match db.resource candidate.resourceUid, outside.selected with
      | some target, some backend =>
          if backend.id == target.backendId && backend.targetKey == target.targetKey &&
              backend.id == candidate.backendId && backend.targetKey == candidate.targetKey then
            { worker := .claiming candidate.id, db := db }
          else { worker := .deferring candidate.id nowMs attempts, db := db }
      | _, _ => { worker := .deferring candidate.id nowMs attempts, db := db }
  | .deferring id nowMs attempts =>
      { worker := .scanning (attempts + 1), db := (db.defer id nowMs (nowMs + options.retryMs)).1 }
  | .claiming id =>
      match db.operation id with
      | none => .ends db .null
      | some row =>
          statement db (db.claim id token outside.nowMs (outside.nowMs + options.leaseMilliseconds))
            (fun db => { worker := .claimed id token row.status, db := db })
            (fun db => .ends db .null)
  | .claimed id token claimedFrom =>
      match db.operation id with
      | none => .ends db .temporarilyUnavailable
      | some row => { worker := .targeting row token claimedFrom, db := db }
  | .targeting row token claimedFrom =>
      match db.resource row.resourceUid with
      | none => .ends db .temporarilyUnavailable
      | some target =>
          if row.dispatchPossible then
            { worker := .owning (execution row target token none) true claimedFrom, db := db }
          else if row.privateInputsPresent then
            { worker := .unsealing row target token claimedFrom, db := db }
          else { worker := .fencing (execution row target token none) claimedFrom, db := db }
  | .unsealing row target token claimedFrom =>
      match custody (db.privateInputs.find? fun held => held.operationId == row.id) outside with
      | .unverifiable => { worker := .unverifiable row.id token, db := db }
      | .waiting names reason => { worker := .waiting row.id token names reason, db := db }
      | .proceed inputs =>
          { worker := .fencing (execution row target token (some inputs)) claimedFrom, db := db }
  | .unverifiable id token =>
      statement db (db.failUnverifiable id token outside.nowMs
          (outside.nowMs + options.replayWindowSeconds * 1000))
        (fun db => { worker := .replying id, db := db })
        (fun db => { worker := .replying id, db := db })
  | .waiting id token names reason =>
      statement db (db.waitForInputs id token outside.nowMs names reason)
        (fun db => { worker := .replying id, db := db })
        (fun db => { worker := .replying id, db := db })
  | .fencing execution claimedFrom =>
      statement db
        (db.markDispatch execution.operationId execution.leaseToken outside.nowMs)
        (fun db =>
          { worker := .owning execution false claimedFrom, db := db
            fence := some ⟨w, execution.operationId, execution.leaseToken⟩ })
        (fun db => { worker := .replying execution.operationId, db := db })
  | .owning execution mustReconcile claimedFrom =>
      if db.ownsClaim execution.operationId execution.leaseToken then
        { worker := .calling execution mustReconcile claimedFrom, db := db }
      else { worker := .replying execution.operationId, db := db }
  | .calling execution mustReconcile claimedFrom =>
      { worker := .settling execution.operationId execution.leaseToken outside.result, db := db
        call := some ⟨w, mustReconcile, execution, claimedFrom⟩ }
  | .settling id token result =>
      statement db (db.settle id token (result.settlement options outside.nowMs))
        (fun db => { worker := .replying id, db := db })
        (fun db => { worker := .replying id, db := db })
  | .replying id =>
      match db.operation id with
      | none => .ends db .temporarilyUnavailable
      | some row => .ends db (.operation row)

/-! ### Any number of workers -/

/-- The database, its workers, the next random token and the two logs. -/
structure System where
  db : Db := {}
  worker : ℕ → Worker := fun _ => .idle
  supply : Uuid := 0
  calls : List Call := []
  fences : List Fence := []

/-- What a request does to the store while workers run. -/
def StoreAction.isRequest : StoreAction → Bool
  | .insertCreate .. | .insertChange .. | .replenish .. => true
  | _ => false

/-- One move: of a request or a worker. -/
inductive SystemAction where
  /-- An acceptance or a replenishment. -/
  | request (action : StoreAction)
  /-- The next statement of a worker. -/
  | step (w : ℕ) (outside : Outside)
  /-- A worker stops, with or without an answer it did not read. -/
  | crash (w : ℕ)

/-- One step of a worker. -/
def System.step (options : EngineOptions) (s : System) (w : ℕ) (outside : Outside) : System :=
  let outcome := stepWorker options w s.supply s.db outside (s.worker w)
  { db := outcome.db
    worker := Function.update s.worker w outcome.worker
    supply := s.supply + 1
    calls := s.calls ++ outcome.call.toList
    fences := s.fences ++ outcome.fence.toList }

/-- The machine of all interleavings of workers and requests. -/
def workers (options : EngineOptions) : Machine System SystemAction where
  init := {}
  next s
    | .request action =>
        if action.isRequest && action.wellFormed s.db then
          some { s with db := action.apply s.db }
        else none
    | .step w outside => some (s.step options w outside)
    | .crash w => some { s with worker := Function.update s.worker w .idle }

end Takoserver.V2
