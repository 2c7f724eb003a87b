import Takoserver.Lib.Async
import Takoserver.Lib.Table

/-!
# The scheduler of Worker Cron Triggers

`runWorkerCronTriggerTick` of `src/takoform-v2/worker-cron-trigger-scheduler.ts`, over the tables
of `migrations/0080_v2_worker_cron_trigger_matches.sql`, which nothing else writes.  Every
statement, every reading of the clock and every delivery is one call; it may be made and its
answer be lost, and a tick may stop between any two calls.

The Resources and Operations are as the rest of the program has them at the time of a call, so
they belong to its circumstances.  An instant is in milliseconds; one that is no number is `none`.
-/

namespace Takoserver.Cron

/-! ### Resources and Operations -/

/-- The Forms of a trigger and of its worker. -/
def workerCronTriggerFormUrl : String :=
  "https://edge.forms.takoform.com/forms/WorkerCronTrigger/0.3.0/"

def moduleWorkerFormUrl : String :=
  "https://edge.forms.takoform.com/forms/ModuleWorker/0.3.0/"

/-- What is read here of `tf_v2_resources`. -/
structure Resource where
  uid : String
  principal : String
  space : String
  targetKey : String
  formUrl : String
  generation : ℕ
  observedGeneration : Option ℕ
  lastOperation : Option String
  specJson : String
  deletedAt : Option String := none
  phase : String
  busyOperation : Option String := none

/-- What is read here of `tf_v2_operations`. -/
structure Operation where
  id : String
  resourceUid : String
  principal : String
  targetKey : String
  action : String
  status : String
  generation : ℕ
  acceptedSpecJson : Option String
  updatedAt : String

/-- `tf_v2_operation_reference_sets`. -/
structure ReferenceSet where
  operationId : String
  isSealed : Bool

/-- `tf_v2_operation_references`. -/
structure OperationReference where
  operationId : String
  targetUid : String
  formUrl : String
  readiness : String

/-- `tf_v2_resource_references`. -/
structure ResourceReference where
  referrerUid : String
  targetUid : String

/-- The tables of the host that the statements read. -/
structure World where
  resources : List Resource := []
  operations : List Operation := []
  referenceSets : List ReferenceSet := []
  references : List OperationReference := []
  edges : List ResourceReference := []
  /-- The primary keys. -/
  resource_keys : (resources.map Resource.uid).Nodup := by decide
  operation_keys : (operations.map Operation.id).Nodup := by decide

/-- A row of `scanPage`. -/
structure TriggerRow where
  uid : String
  principal : String
  space : String
  targetKey : String
  generation : ℕ
  lastOperation : String
  updatedAt : String
  specJson : String
  deriving DecidableEq

/-- The Operation is the last of the Resource and has settled it. -/
def Resource.isSettledBy (r : Resource) (op : Operation) : Bool :=
  decide (r.deletedAt = none ∧ r.phase = "idle" ∧ r.busyOperation = none ∧
    r.observedGeneration = some r.generation ∧ r.lastOperation = some op.id ∧
    op.targetKey = r.targetKey ∧ (op.action = "create" ∨ op.action = "update") ∧
    op.status = "succeeded" ∧ op.generation = r.generation ∧
    op.acceptedSpecJson = some r.specJson)

/-- The Operation references a Worker that the Resource does, one row for each way it does. -/
def World.workerReferences (w : World) (r : Resource) (op : Operation) : List Unit :=
  w.referenceSets.flatMap fun set => w.references.flatMap fun ref => w.edges.filterMap fun edge =>
    if set.operationId = op.id ∧ set.isSealed = true ∧ ref.operationId = op.id ∧
      ref.formUrl = moduleWorkerFormUrl ∧ ref.readiness = "observed" ∧
      edge.referrerUid = r.uid ∧ edge.targetUid = ref.targetUid then some () else none

/-- The rows of the `SELECT` of `scanPage`, without its order and limit. -/
def World.triggers (w : World) (targetKey after : String) : List TriggerRow :=
  w.resources.flatMap fun r => w.operations.flatMap fun op =>
    if r.isSettledBy op = true ∧ op.resourceUid = r.uid ∧ op.principal = r.principal ∧
      r.formUrl = workerCronTriggerFormUrl ∧ r.targetKey = targetKey ∧ after < r.uid then
      (w.workerReferences r op).map fun _ =>
        { uid := r.uid, principal := r.principal, space := r.space, targetKey := r.targetKey
          generation := r.generation, lastOperation := op.id, updatedAt := op.updatedAt
          specJson := r.specJson }
    else []

/-- The triggers of a page. -/
def scanPageSize : ℕ := 128

/-- `scanPage`. -/
def World.scanPage (w : World) (targetKey after : String) : List TriggerRow :=
  ((w.triggers targetKey after).insertionSort fun a b => a.uid ≤ b.uid).take (scanPageSize + 1)

/-! ### Tables of the scheduler -/

/-- `state` of a match. -/
inductive MatchState where
  | pending
  | dispatching
  | resolved
  | rejected
  deriving DecidableEq

/-- The match is settled for good. -/
def MatchState.isOutcome : MatchState → Bool
  | .resolved | .rejected => true
  | _ => false

/-- `tf_v2_worker_cron_matches`. -/
structure Match where
  matchId : String
  triggerUid : String
  principal : String
  space : String
  triggerGeneration : ℕ
  targetKey : String
  triggerOperationId : String
  triggerSettledAt : String
  workerUid : String
  cron : String
  scheduledTimeMs : ℤ
  state : MatchState := .pending
  attempts : ℕ := 0
  createdAtMs : ℤ
  nextAttemptAtMs : ℤ
  leaseToken : Option String := none
  leaseUntilMs : Option ℤ := none
  resultVersionUid : Option String := none
  errorCode : Option String := none
  updatedAtMs : ℤ
  deriving DecidableEq

/-- `UNIQUE (trigger_uid, cron, scheduled_time_ms)`. -/
def Match.key (m : Match) : String × String × ℤ := (m.triggerUid, m.cron, m.scheduledTimeMs)

/-- `tf_v2_worker_cron_scan_cursors`. -/
structure ScanCursor where
  targetKey : String
  scheduledTime : ℤ
  afterUid : String
  scanComplete : Bool
  deriving DecidableEq

/-- The `SELECT` of the insert: the trigger is still settled, as it was read. -/
def World.isCurrent (w : World) (m : Match) (specJson scheduledAt : String) : Bool :=
  w.resources.any fun r => w.operations.any fun op =>
    r.isSettledBy op && decide (r.uid = m.triggerUid ∧ r.principal = m.principal ∧
      r.space = m.space ∧ r.targetKey = m.targetKey ∧ r.formUrl = workerCronTriggerFormUrl ∧
      r.generation = m.triggerGeneration ∧ op.id = m.triggerOperationId ∧
      r.specJson = specJson ∧ op.updatedAt = m.triggerSettledAt ∧ op.updatedAt ≤ scheduledAt)

/-- What is read here of a `WorkerCronTrigger` spec. -/
structure Spec where
  workerUid : String
  cron : String
  isMatch : ℤ → Bool
  /-- A cron is five fields of printable characters. -/
  plain : '\x00' ∉ cron.toList

/-- What the tick calls. -/
structure Host where
  /-- `parseWorkerCronTriggerSpec(JSON.parse(text))`, where it does not throw. -/
  parseSpec : String → Option Spec
  /-- `Date.parse`. -/
  dateParse : String → Option ℤ
  toISOString : ℤ → String
  /-- `bytesDigest`, of the text. -/
  bytesDigest : String → String
  /-- The rest of `tf_v2_worker_cron_match_insert_guard`: the graph of the Worker and its
  Deployment; and the constraints of the row. -/
  admits : World → Match → Bool

/-- What the tables hold, and what has happened to them. -/
structure Store where
  matches_ : List Match := []
  cursors : List ScanCursor := []
  /-- The lease tokens drawn so far, and by whom. -/
  tokens : List (ℕ × String) := []
  /-- The tokens under which an outcome was recorded, or the match released. -/
  ended : List String := []
  /-- The matches that the guard refused. -/
  refused : List Match := []
  /-- The pages read, for a minute of a target. -/
  pages : List (String × ℤ × World) := []
  /-- The matches that were to be inserted, and whether the trigger was still as it was read. -/
  inserts : List (Match × Bool) := []
  /-- What the clock read as the last call was made. -/
  time : ℤ := 0

/-! ### Statements -/

/-- What a delivery came to. -/
inductive DeliveryResult where
  | handlerResolved (workerVersionUid : String)
  | handlerRejected (workerVersionUid : String)
  | unknown

/-- A statement of the scheduler, or what it reads around it. -/
inductive Call where
  | now
  | randomUUID
  | loadScanCursor (targetKey : String)
  /-- The statement does not read the minute it is made for. -/
  | scanPage (scheduledTime : ℤ) (targetKey after : String)
  | insertMatch (m : Match) (specJson scheduledAt : String)
  | advanceScanCursor (previous : Option ScanCursor) (next : ScanCursor)
  | claimable (targetKey : String) (tickAt : ℤ) (limit : ℕ)
  | claim (leaseToken : String) (leaseUntil tickAt : ℤ) (matchId targetKey : String)
  | readMatch (matchId targetKey leaseToken : String)
  | invokeScheduled (row : Match)
  | record (rejected : Bool) (workerVersionUid : String) (updatedAt : Option ℤ)
      (matchId targetKey leaseToken : String)
  | release (retryAt updatedAt : Option ℤ) (matchId targetKey leaseToken : String)
  deriving DecidableEq

/-- What a call gives back. -/
abbrev Call.Answer : Call → Type
  | .now => Option ℤ
  | .randomUUID => String
  | .loadScanCursor _ => Option ScanCursor
  | .scanPage .. => List TriggerRow
  | .insertMatch .. => ℕ
  | .advanceScanCursor .. => Unit
  | .claimable .. => List String
  | .claim .. => ℕ
  | .readMatch .. => Option Match
  | .invokeScheduled _ => DeliveryResult
  | .record .. => ℕ
  | .release .. => ℕ

/-- What a tick throws. -/
inductive TickError where
  | typeError (message : String)
  /-- `SqlError` of code `constraint`. -/
  | constraint
  | other
  deriving DecidableEq

/-- The circumstances of a call. -/
structure Outside where
  /-- What the clock of the process reads as the call is made. -/
  time : Option ℤ := some 0
  world : World := {}
  token : String := ""
  result : DeliveryResult := .unknown
  /-- The call fails, and nothing is done. -/
  fails : Bool := false
  /-- The call is made, and its answer is lost. -/
  lost : Bool := false

namespace Store

variable (s : Store)

/-- `tf_v2_worker_cron_match_insert_guard`: an earlier match of the trigger is outstanding. -/
def isOutstanding (m : Match) : Bool :=
  s.matches_.any fun r => decide (r.triggerUid = m.triggerUid ∧
    r.scheduledTimeMs < m.scheduledTimeMs) && !r.state.isOutcome

/-- The insert of a match, `ON CONFLICT DO NOTHING`. -/
def insertMatch (h : Host) (world : World) (m : Match) (specJson scheduledAt : String) :
    Except TickError ℕ × Store :=
  let current := world.isCurrent m specJson scheduledAt
  let s := { s with inserts := s.inserts ++ [(m, current)] }
  if current = false then (.ok 0, s)
  else if s.isOutstanding m = true ∨ h.admits world m = false then
    (.error .constraint, { s with refused := s.refused ++ [m] })
  else if s.matches_.any fun r => r.matchId = m.matchId ∨ r.key = m.key then (.ok 0, s)
  else (.ok 1, { s with matches_ := s.matches_ ++ [m] })

/-- The constraint of `after_uid`, and `RESOURCE_UID`. -/
def isResourceUid (uid : String) : Bool :=
  let isAlnum (c : Char) : Bool := decide (c.toNat < 128) && c.isAlphanum
  decide (1 ≤ uid.length ∧ uid.length ≤ 128) && uid.toList.head?.any isAlnum &&
    uid.toList.all fun c => isAlnum c || c = '.' || c = '_' || c = '-'

/-- `tf_v2_worker_cron_scan_cursor_transition`. -/
def isTransition (old new : ScanCursor) : Bool :=
  decide (old.scheduledTime < new.scheduledTime) ||
    decide (old.scheduledTime = new.scheduledTime ∧ old.scanComplete = false ∧
      (old.afterUid < new.afterUid ∨ (old.afterUid = new.afterUid ∧ new.scanComplete = true)))

/-- `advanceScanCursor`. -/
def advanceScanCursor (previous : Option ScanCursor) (next : ScanCursor) :
    Except TickError Unit × Store :=
  if next.afterUid ≠ "" ∧ isResourceUid next.afterUid = false then (.error .constraint, s)
  else
    match previous with
    | none =>
      if s.cursors.any fun c => c.targetKey = next.targetKey then (.ok (), s)
      else (.ok (), { s with cursors := s.cursors ++ [next] })
    | some previous =>
      if previous ∈ s.cursors then
        if isTransition previous next then
          (.ok (), { s with cursors := Table.put ScanCursor.targetKey next s.cursors })
        else (.error .constraint, s)
      else (.ok (), s)

/-- What may be claimed. -/
def isDue (m : Match) (tickAt : ℤ) : Bool :=
  decide (m.state = .pending ∧ m.nextAttemptAtMs ≤ tickAt) ||
    (decide (m.state = .dispatching) && m.leaseUntilMs.any fun t => decide (t ≤ tickAt))

/-- The due matches of the target, the oldest first. -/
def claimable (targetKey : String) (tickAt : ℤ) (limit : ℕ) : List String :=
  let due := s.matches_.filter fun m => decide (m.targetKey = targetKey) && isDue m tickAt
  let sorted := due.insertionSort fun a b =>
    toLex (a.scheduledTimeMs, toLex (a.createdAtMs, a.matchId)) ≤
      toLex (b.scheduledTimeMs, toLex (b.createdAtMs, b.matchId))
  (sorted.take limit).map Match.matchId

/-- An `UPDATE` of a match, where the row is one of `p`; a row that is not one of `sound` after it
is a violation of a constraint. -/
def updateMatch (matchId : String) (p : Match → Bool) (sound : Match → Match → Bool)
    (f : Match → Match) (ended : List String) : Except TickError ℕ × Store :=
  match s.matches_.find? fun m => decide (m.matchId = matchId) && p m with
  | none => (.ok 0, s)
  | some m =>
    if sound m (f m) then
      (.ok 1, { s with
        matches_ := Table.put Match.matchId (f m) s.matches_
        ended := s.ended ++ ended })
    else (.error .constraint, s)

/-- `tf_v2_worker_cron_match_transition_guard`: the trigger is still there. -/
def isClaimable (world : World) (m : Match) : Bool :=
  world.resources.any fun r => decide (r.uid = m.triggerUid ∧ r.principal = m.principal ∧
    r.space = m.space ∧ r.targetKey = m.targetKey ∧ r.formUrl = workerCronTriggerFormUrl ∧
    m.triggerGeneration ≤ r.generation ∧ r.deletedAt = none)

/-- The match is leased, where its trigger is still settled. -/
def claim (world : World) (leaseToken : String) (leaseUntil tickAt : ℤ)
    (matchId targetKey : String) : Except TickError ℕ × Store :=
  s.updateMatch matchId (fun m => decide (m.targetKey = targetKey) && isDue m tickAt)
    (fun m _ => isClaimable world m)
    (fun m => { m with
      state := .dispatching, attempts := m.attempts + 1, leaseToken := some leaseToken
      leaseUntilMs := some leaseUntil, updatedAtMs := tickAt }) []

/-- The match is dispatched under the lease. -/
def isLeased (targetKey leaseToken : String) (m : Match) : Bool :=
  decide (m.targetKey = targetKey ∧ m.state = .dispatching ∧ m.leaseToken = some leaseToken)

/-- The outcome of a match: its Version is a Resource, and the clock is not behind the row. -/
def record (world : World) (rejected : Bool) (workerVersionUid : String) (updatedAt : Option ℤ)
    (matchId targetKey leaseToken : String) : Except TickError ℕ × Store :=
  s.updateMatch matchId (isLeased targetKey leaseToken)
    (fun m _ => (world.resources.any fun r => r.uid = workerVersionUid) &&
      updatedAt.any fun t => decide (m.createdAtMs ≤ t))
    (fun m => { m with
      state := if rejected then .rejected else .resolved
      leaseToken := none, leaseUntilMs := none, resultVersionUid := some workerVersionUid
      errorCode := if rejected then some "handler_rejected" else none
      updatedAtMs := updatedAt.getD 0 }) [leaseToken]

/-- The match is released; its next attempt is after the last one. -/
def release (retryAt updatedAt : Option ℤ) (matchId targetKey leaseToken : String) :
    Except TickError ℕ × Store :=
  s.updateMatch matchId (isLeased targetKey leaseToken)
    (fun m _ => (retryAt.any fun t => decide (m.nextAttemptAtMs < t)) &&
      updatedAt.any fun t => decide (m.createdAtMs ≤ t))
    (fun m => { m with
      state := .pending, leaseToken := none, leaseUntilMs := none
      nextAttemptAtMs := retryAt.getD 0, updatedAtMs := updatedAt.getD 0 }) [leaseToken]

end Store

/-- What a call of a process does. -/
def exec (h : Host) (n : ℕ) (w : Outside) (s : Store) : (c : Call) → Except TickError c.Answer × Store
  | .now => (.ok w.time, s)
  | .randomUUID => (.ok w.token, { s with tokens := s.tokens ++ [(n, w.token)] })
  | .loadScanCursor targetKey => (.ok (Table.find ScanCursor.targetKey s.cursors targetKey), s)
  | .scanPage scheduledTime targetKey after =>
    (.ok (w.world.scanPage targetKey after),
      { s with pages := s.pages ++ [(targetKey, scheduledTime, w.world)] })
  | .insertMatch m specJson scheduledAt => s.insertMatch h w.world m specJson scheduledAt
  | .advanceScanCursor previous next => s.advanceScanCursor previous next
  | .claimable targetKey tickAt limit => (.ok (s.claimable targetKey tickAt limit), s)
  | .claim leaseToken leaseUntil tickAt matchId targetKey =>
    s.claim w.world leaseToken leaseUntil tickAt matchId targetKey
  | .readMatch matchId targetKey leaseToken =>
    (.ok (s.matches_.find? fun m =>
      decide (m.matchId = matchId) && Store.isLeased targetKey leaseToken m), s)
  | .invokeScheduled _ => (.ok w.result, s)
  | .record rejected workerVersionUid updatedAt matchId targetKey leaseToken =>
    s.record w.world rejected workerVersionUid updatedAt matchId targetKey leaseToken
  | .release retryAt updatedAt matchId targetKey leaseToken =>
    s.release retryAt updatedAt matchId targetKey leaseToken

/-- One call of a process in one circumstance; no two tokens are drawn alike. -/
def runs (h : Host) : Runs Call Call.Answer TickError Store Outside := fun n c w s =>
  if c = .randomUUID ∧ w.token ∈ s.tokens.map Prod.snd then none
  else
    let s := { s with time := w.time.getD s.time }
    some (if w.fails then (.error .other, s)
      else (if w.lost then .error .other else (exec h n w s c).1, (exec h n w s c).2))

/-! ### The program -/

/-- A call of the scheduler. -/
abbrev Program := Async Call Call.Answer TickError

/-- One statement. -/
def ask (c : Call) : Program c.Answer := .call c

/-- The options of a tick. -/
structure Options where
  targetKey : String
  limit : Option ℤ := none
  leaseMilliseconds : Option ℤ := none
  retryMilliseconds : Option ℤ := none

/-- What a tick answers; of `recorded` and the scan first, then of the deliveries. -/
structure TickResult where
  recorded : ℕ := 0
  claimed : ℕ := 0
  resolved : ℕ := 0
  rejected : ℕ := 0
  unknown : ℕ := 0
  scanComplete : Bool := false
  hasMore : Bool := false
  continuation : Option ScanCursor := none

/-- What the id of a match is the digest of. -/
def matchKey (uid cron : String) (scheduledTime : ℤ) : String :=
  uid ++ "\x00" ++ cron ++ "\x00" ++ toString scheduledTime

/-- The match of a row that was settled by the minute and is due at it. -/
def Host.matchOf (h : Host) (targetKey : String) (tickAt scheduledTime : ℤ) (row : TriggerRow) :
    Option Match :=
  match h.parseSpec row.specJson, h.dateParse row.updatedAt with
  | some spec, some settledAt =>
    if scheduledTime < settledAt ∨ spec.isMatch scheduledTime = false then none
    else some {
      matchId := h.bytesDigest (matchKey row.uid spec.cron scheduledTime)
      triggerUid := row.uid, principal := row.principal, space := row.space
      triggerGeneration := row.generation, targetKey, triggerOperationId := row.lastOperation
      triggerSettledAt := row.updatedAt, workerUid := spec.workerUid, cron := spec.cron
      scheduledTimeMs := scheduledTime, createdAtMs := tickAt, nextAttemptAtMs := tickAt
      updatedAtMs := tickAt }
  | _, _ => none

/-- The loop over the candidates: how many were recorded. -/
def recordMatches (h : Host) (targetKey : String) (tickAt scheduledTime : ℤ) :
    List TriggerRow → ℕ → Program ℕ
  | [], recorded => pure recorded
  | row :: rows, recorded =>
    match h.matchOf targetKey tickAt scheduledTime row with
    | none => recordMatches h targetKey tickAt scheduledTime rows recorded
    | some m => do
      let changes ← tryCatch
        (ask (.insertMatch m row.specJson (h.toISOString scheduledTime))) fun e =>
          if e = .constraint then pure 0 else throw e
      recordMatches h targetKey tickAt scheduledTime rows (recorded + changes)

/-- Where the scan of a minute goes on from. -/
def startOf (savedCursor : Option ScanCursor) (scheduledTime : ℤ) : String :=
  match savedCursor with
  | some c => if c.scheduledTime = scheduledTime then c.afterUid else ""
  | none => ""

/-- The scan of one minute, from its saved cursor on. -/
def scanMinute (h : Host) (targetKey : String) (tickAt scheduledTime : ℤ) : Program TickResult := do
  let savedCursor ← ask (.loadScanCursor targetKey)
  if savedCursor.any fun c => decide (scheduledTime < c.scheduledTime) then
    return { hasMore := true, continuation := savedCursor }
  if savedCursor.any fun c => decide (c.scheduledTime = scheduledTime) && c.scanComplete then
    return { scanComplete := true }
  let page ← ask (.scanPage scheduledTime targetKey (startOf savedCursor scheduledTime))
  let hasMore := decide (scanPageSize < page.length)
  let candidates := page.take scanPageSize
  let recorded ← recordMatches h targetKey tickAt scheduledTime candidates 0
  let afterUid := (candidates.getLast?.map TriggerRow.uid).getD (startOf savedCursor scheduledTime)
  ask (.advanceScanCursor savedCursor { targetKey, scheduledTime, afterUid, scanComplete := !hasMore })
  match ← ask (.loadScanCursor targetKey) with
  | some c =>
    if scheduledTime ≤ c.scheduledTime then
      let complete := decide (c.scheduledTime = scheduledTime) && c.scanComplete
      return { recorded, scanComplete := complete, hasMore := !complete
               continuation := if complete then none else some c }
    else return { recorded, scanComplete := !hasMore, hasMore }
  | none => return { recorded, scanComplete := !hasMore, hasMore }

/-- The delivery of a claimed match: an outcome of no Version is unknown. -/
def deliver (row : Match) : Program DeliveryResult := do
  match ← tryCatch (ask (.invokeScheduled row)) fun _ => pure .unknown with
  | .handlerResolved uid =>
    return if Store.isResourceUid uid then .handlerResolved uid else .unknown
  | .handlerRejected uid =>
    return if Store.isResourceUid uid then .handlerRejected uid else .unknown
  | .unknown => return .unknown

/-- The end of a delivery. -/
def settle (retryMilliseconds : ℤ) (targetKey leaseToken : String) (row : Match)
    (t : TickResult) : DeliveryResult → Program TickResult
  | .handlerResolved uid => do
    let updatedAt ← ask .now
    let changes ← ask (.record false uid updatedAt row.matchId targetKey leaseToken)
    return if changes = 1 then { t with resolved := t.resolved + 1 } else t
  | .handlerRejected uid => do
    let updatedAt ← ask .now
    let changes ← ask (.record true uid updatedAt row.matchId targetKey leaseToken)
    return if changes = 1 then { t with rejected := t.rejected + 1 } else t
  | .unknown => do
    let retryAt := (← ask .now).map (· + retryMilliseconds)
    let updatedAt ← ask .now
    let changes ← ask (.release retryAt updatedAt row.matchId targetKey leaseToken)
    return if changes = 1 then { t with unknown := t.unknown + 1 } else t

/-- The loop over what may be claimed. -/
def dispatch (leaseMilliseconds retryMilliseconds : ℤ) (targetKey : String) (tickAt : ℤ) :
    List String → TickResult → Program TickResult
  | [], t => pure t
  | matchId :: claimable, t => do
    let leaseToken ← ask .randomUUID
    let leaseUntil := tickAt + leaseMilliseconds
    if (← ask (.claim leaseToken leaseUntil tickAt matchId targetKey)) ≠ 1 then
      dispatch leaseMilliseconds retryMilliseconds targetKey tickAt claimable t
    else
      match ← ask (.readMatch matchId targetKey leaseToken) with
      | none => dispatch leaseMilliseconds retryMilliseconds targetKey tickAt claimable t
      | some row => do
        let result ← deliver row
        let t ← settle retryMilliseconds targetKey leaseToken row
          { t with claimed := t.claimed + 1 } result
        dispatch leaseMilliseconds retryMilliseconds targetKey tickAt claimable t

/-- `Number.isSafeInteger`, and a lower bound. -/
def isIntegerFrom (low value : ℤ) : Bool := decide (low ≤ value ∧ value < 2 ^ 53)

/-- The program of a tick. -/
def runWorkerCronTriggerTick (h : Host) (o : Options) : Program TickResult := do
  let limit := o.limit.getD 16
  let leaseMilliseconds := o.leaseMilliseconds.getD 30000
  let retryMilliseconds := o.retryMilliseconds.getD 1000
  if o.targetKey = "" then throw (.typeError "targetKey is required")
  if (isIntegerFrom 1 limit && decide (limit ≤ 100)) = false then
    throw (.typeError "limit must be an integer from 1 through 100")
  if isIntegerFrom 1000 leaseMilliseconds = false then
    throw (.typeError "leaseMilliseconds must be an integer of at least 1000")
  if isIntegerFrom 1000 retryMilliseconds = false then
    throw (.typeError "retryMilliseconds must be an integer of at least 1000")
  match ← ask .now with
  | none => throw (.typeError "clock must be valid UTC time")
  | some tickAt =>
    if isIntegerFrom 0 tickAt = false then throw (.typeError "clock must be valid UTC time")
    let t ← scanMinute h o.targetKey tickAt (tickAt / 60000 * 60000)
    let claimable ← ask (.claimable o.targetKey tickAt limit.toNat)
    let t ← dispatch leaseMilliseconds retryMilliseconds o.targetKey tickAt claimable t
    return { t with scanComplete := !t.hasMore }

/-- The machine of all interleavings of ticks. -/
def scheduler (h : Host) : Machine (Pool Store (Program TickResult)) (PoolAction Options Outside) :=
  pool (runs h) (runWorkerCronTriggerTick h) {}

end Takoserver.Cron
