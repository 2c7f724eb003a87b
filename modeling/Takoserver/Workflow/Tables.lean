import Takoserver.Lib.Table

/-!
# The tables of workflow instances

`migrations/0050` to `0052`: the instances with their run lease, the journal of their steps and
the queue of their events.  The statements of `src/workflow-execution.ts` and
`src/workflow-instances.ts` on them are here, each a function of the database and of the values it
binds; a batch is one function.

An execution of an author-chosen id is an *incarnation*: `execution_id` and `created_at` name it,
and the id may be used again only when the row of the former incarnation is gone.

Whether the Resource of an instance is live (`liveInstance`, `readySql`) is decided by the tables
of another domain; a statement that asks is given the answer, `live`.  A document is its text, but
the error records and the configuration of a step are what they hold.
-/

namespace Takoserver.Workflow

/-- Milliseconds. -/
abbrev Instant := ℕ

/-! ### Rows -/

/-- `status` of an execution. -/
inductive Status where
  | queued
  | running
  | sleeping
  | waiting
  | complete
  | errored
  | terminated
  deriving DecidableEq

/-- `TERMINAL`. -/
def Status.terminal : Status → Bool
  | .complete | .errored | .terminated => true
  | _ => false

/-- `WorkflowErrorReason`. -/
inductive ErrorReason where
  | runThrew
  | stepFailed
  | stepLimitExceeded
  | lifetimeExceeded
  | stepDefinitionMismatch
  deriving DecidableEq

/-- The scope of an instance, and its id. -/
structure InstanceKey where
  tenantId : String
  workflowResourceUid : String
  instanceId : String
  deriving DecidableEq

/-- One execution of an instance id. -/
structure Incarnation extends InstanceKey where
  executionId : String
  createdAt : Instant
  deriving DecidableEq

/-- `WorkflowRunIdentity`. -/
structure RunIdentity extends Incarnation where
  epoch : ℕ
  owner : String
  deadlineAt : Instant

/-- `tf_workflow_instances`. -/
structure InstanceRow extends Incarnation where
  status : Status
  outputJson : Option String := none
  error : Option ErrorReason := none
  updatedAt : Instant
  deadlineAt : Instant
  retentionUntil : Instant
  revision : ℕ := 1
  runEpoch : ℕ := 0
  runOwner : Option String := none
  runLeaseUntil : Option Instant := none
  wakeAt : Option Instant := none
  pendingStepName : Option String := none
  terminationRequested : Bool := false
  deriving DecidableEq

/-- `kind` of a step. -/
inductive StepKind where
  | run
  | sleep
  | wait
  deriving DecidableEq

/-- `config_json`, under the kind of its step (`run` is `"do"`). -/
inductive StepConfig where
  | run (retryDelaysSeconds : List ℕ)
  | sleep (seconds : ℕ)
  | wait (type : String) (timeoutSeconds : ℕ)
  deriving DecidableEq

/-- The kind a configuration is for. -/
def StepConfig.kind : StepConfig → StepKind
  | .run _ => .run
  | .sleep _ => .sleep
  | .wait _ _ => .wait

/-- `state` of a step. -/
inductive StepState where
  | pending
  | retryWait
  | waiting
  | complete
  | errored
  deriving DecidableEq

/-- The step has its result. -/
def StepState.settled : StepState → Bool
  | .complete | .errored => true
  | _ => false

/-- Why a step failed. -/
inductive StepError where
  | stepFailed
  | waitTimeout
  deriving DecidableEq

/-- `tf_workflow_steps`. -/
structure StepRow where
  execution : Incarnation
  name : String
  config : StepConfig
  state : StepState
  /-- The attempt in `retry_progress_json`. -/
  retryProgress : Option ℕ := none
  waitType : Option String := none
  wakeAt : Option Instant := none
  timeoutAt : Option Instant := none
  resultJson : Option String := none
  error : Option StepError := none
  createdAt : Instant
  updatedAt : Instant
  revision : ℕ := 1
  deriving DecidableEq

/-- `tf_workflow_events`. -/
structure EventRow where
  eventId : ℕ
  key : InstanceKey
  executionId : String
  type : String
  payloadJson : Option String
  createdAt : Instant
  deriving DecidableEq

/-- The tables of the store. -/
structure Db where
  instances : List InstanceRow := []
  steps : List StepRow := []
  events : List EventRow := []
  /-- The last id that `AUTOINCREMENT` gave. -/
  lastEventId : ℕ := 0
  deriving DecidableEq

/-- Every update of a row raises its revision. -/
def InstanceRow.revised (new old : InstanceRow) : InstanceRow :=
  { new with revision := old.revision + 1 }

/-! ### Conditions -/

/-- `CLAIM_ID`. -/
def InstanceRow.claimedBy (identity : RunIdentity) (r : InstanceRow) : Bool :=
  decide (r.toIncarnation = identity.toIncarnation ∧ r.runEpoch = identity.epoch ∧
    r.runOwner = some identity.owner)

/-- The lease has not run out. -/
def InstanceRow.leased (timestamp : Instant) (r : InstanceRow) : Bool :=
  r.runLeaseUntil.any fun untilMs => decide (timestamp < untilMs)

/-- `RUNNABLE`. -/
def InstanceRow.runnable (identity : RunIdentity) (timestamp : Instant) (live : Bool)
    (r : InstanceRow) : Bool :=
  r.claimedBy identity &&
    decide (r.terminationRequested = false ∧ r.status = .running) && r.leased timestamp &&
    decide (timestamp < r.deadlineAt ∧ timestamp < r.retentionUntil) && live

/-- `STEP_ID`. -/
def StepRow.isStep (i : Incarnation) (name : String) (p : StepRow) : Bool :=
  decide (p.execution.executionId = i.executionId ∧ p.execution.createdAt = i.createdAt ∧
    p.name = name)

/-- The step is of the incarnation of the row. -/
def StepRow.isOf (r : InstanceRow) (p : StepRow) : Bool :=
  decide (p.execution.executionId = r.executionId ∧ p.execution.createdAt = r.createdAt)

/-- The step waits for a type, and the event is one that came in time. -/
def StepRow.awaits (p : StepRow) (e : EventRow) : Bool :=
  decide (e.executionId = p.execution.executionId ∧ p.waitType = some e.type) &&
    p.timeoutAt.any fun timeoutAt => decide (e.createdAt ≤ timeoutAt)

/-- The condition on the event that a wait consumes. -/
structure EventWhere where
  eventId : ℕ
  type : String
  timeoutAt : Instant
  deriving DecidableEq

/-- The event is the one a batch consumes. -/
def EventRow.meets (i : Incarnation) (w : EventWhere) (e : EventRow) : Bool :=
  decide (e.eventId = w.eventId ∧ e.key = i.toInstanceKey ∧ e.executionId = i.executionId ∧
    e.type = w.type ∧ e.createdAt ≤ w.timeoutAt)

/-! ### Constants -/

/-- `WORKFLOW_MAX_INSTANCE_LIFETIME_SECONDS`, `MAX_SECONDS`. -/
def maxSeconds : ℕ := 31536000

/-- `INSTANCE_LIFETIME_MS`. -/
def lifetimeMs : ℕ := maxSeconds * 1000

/-- `WORKFLOW_MAX_TERMINAL_RETENTION_SECONDS`, in milliseconds. -/
def retentionMs : ℕ := 2592000 * 1000

/-- `MAX_STEPS`. -/
def maxSteps : ℕ := 1024

/-- `WORKFLOW_MAX_PENDING_EVENT_COUNT`. -/
def maxPendingEventCount : ℕ := 1024

/-- `WORKFLOW_MAX_PENDING_EVENT_BYTES`. -/
def maxPendingEventBytes : ℕ := 1048576

/-! ### The size of an event -/

/-- The bytes of a character in a JSON text. -/
def jsonCharBytes (c : Char) : ℕ :=
  if c.toNat ∈ [0x22, 0x5c, 0x08, 0x09, 0x0a, 0x0c, 0x0d] then 2
  else if c.toNat < 0x20 then 6
  else c.utf8Size

/-- `canonicalJsonStringBytes`. -/
def canonicalJsonStringBytes (value : String) : ℕ := 2 + (value.toList.map jsonCharBytes).sum

/-- `documentBytes`, of `prepareEventInput` and of the query. -/
def documentBytes (type : String) : Option String → ℕ
  | none => 9 + canonicalJsonStringBytes type
  | some payload => 20 + payload.utf8ByteSize + canonicalJsonStringBytes type

namespace Db

variable (db : Db)

/-- The instance of a key. -/
def read (key : InstanceKey) : Option InstanceRow :=
  Table.find (fun r => r.toInstanceKey) db.instances key

/-- `readStep`. -/
def readStep (i : Incarnation) (name : String) : Option StepRow :=
  db.steps.find? (StepRow.isStep i name)

/-- `RUN_EXISTS`. -/
def runExists (identity : RunIdentity) (timestamp : Instant) (live : Bool) : Bool :=
  db.instances.any (InstanceRow.runnable identity timestamp live)

/-- `UPDATE tf_workflow_instances SET …, revision = revision + 1 WHERE …`. -/
def updateInstances (condition : InstanceRow → Bool) (set : InstanceRow → InstanceRow) : Db :=
  { db with instances := Table.update condition (fun r => (set r).revised r) db.instances }

/-! ### Ending an execution -/

/-- The steps and events of the executions that meet a condition are deleted. -/
def dropJournal (condition : InstanceRow → Bool) : Db :=
  { db with
    steps := Table.delete (fun p => db.instances.any fun r => condition r && p.isOf r) db.steps
    events := Table.delete (fun e => db.instances.any fun r =>
      condition r && decide (e.executionId = r.executionId)) db.events }

/-- The last two statements of a batch that ends an execution. -/
def cleanup (i : Incarnation) (guard : InstanceRow → Bool) : Db :=
  if db.instances.any guard then
    { db with
      steps := Table.delete (fun p => decide (p.execution.executionId = i.executionId ∧
        p.execution.createdAt = i.createdAt)) db.steps
      events := Table.delete (fun e => decide (e.executionId = i.executionId)) db.events }
  else db

/-- The rows are deleted, with all that belongs to them. -/
def remove (condition : InstanceRow → Bool) : Db :=
  { db.dropJournal condition with instances := Table.delete condition db.instances }

/-! ### The statements of callers -/

/-- The batch of `create`. -/
def create (i : Incarnation) (live : Bool) : Db :=
  let db' := db.remove fun r =>
    decide (r.toInstanceKey = i.toInstanceKey ∧ r.retentionUntil ≤ i.createdAt)
  if (db'.instances.all fun r => decide (r.toInstanceKey ≠ i.toInstanceKey)) && live then
    { db' with instances := db'.instances ++ [
        { toIncarnation := i
          status := .queued
          updatedAt := i.createdAt
          deadlineAt := i.createdAt + lifetimeMs
          retentionUntil := i.createdAt + lifetimeMs + retentionMs }] }
  else db'

/-- The executions that `settleExpired` ends. -/
def lapsed (key : InstanceKey) (timestamp : Instant) (r : InstanceRow) : Bool :=
  decide (r.toInstanceKey = key ∧ r.deadlineAt ≤ timestamp ∧ timestamp < r.retentionUntil) &&
    !r.status.terminal

/-- `settleExpired`. -/
def settleExpired (key : InstanceKey) (timestamp : Instant) : Db :=
  (db.dropJournal (lapsed key timestamp)).updateInstances (lapsed key timestamp) fun r =>
    { r with
      status := .errored
      outputJson := none
      error := some .lifetimeExceeded
      wakeAt := none
      pendingStepName := none
      updatedAt := r.deadlineAt }

/-- `visibleInstance`. -/
def visibleInstance (key : InstanceKey) (timestamp : Instant) : Option InstanceRow :=
  (db.read key).filter fun r => decide (timestamp < r.retentionUntil)

/-- The batch of the store's own `terminate`. -/
def terminate (i : Incarnation) (timestamp : Instant) : Db :=
  (db.updateInstances
    (fun r => decide (r.toIncarnation = i ∧ timestamp < r.retentionUntil ∧
      timestamp < r.deadlineAt) && !r.status.terminal) fun r =>
    { r with
      status := .terminated
      outputJson := none
      error := none
      wakeAt := none
      pendingStepName := none
      updatedAt := timestamp
      retentionUntil := timestamp + retentionMs }).cleanup i fun r =>
    decide (r.toIncarnation = i ∧ timestamp < r.retentionUntil ∧ r.status = .terminated)

/-- The `WHERE` that names a row as it was read: incarnation, epoch and owner. -/
def asRead (current r : InstanceRow) : Bool :=
  decide (r.toIncarnation = current.toIncarnation ∧ r.runEpoch = current.runEpoch ∧
    r.runOwner = current.runOwner)

/-- `requestTermination`. -/
def requestTermination (current : InstanceRow) (timestamp : Instant) : Db :=
  db.updateInstances
    (fun r => asRead current r && !r.status.terminal &&
      decide (r.terminationRequested = false ∧ timestamp < r.retentionUntil ∧
        (current.runOwner = none → r.runLeaseUntil = none))) fun r =>
    { r with terminationRequested := true, updatedAt := timestamp }

/-- `clearTerminalTermination`. -/
def clearTerminalTermination (current : InstanceRow) (timestamp : Instant) : Db :=
  db.updateInstances
    (fun r => asRead current r && r.status.terminal &&
      decide (r.terminationRequested = true ∧ timestamp < r.retentionUntil)) fun r =>
    { r with runOwner := none, runLeaseUntil := none, terminationRequested := false }

/-- Past its deadline an execution ends as errored. -/
def terminationStatus (current : InstanceRow) (timestamp : Instant) : Status :=
  if current.deadlineAt ≤ timestamp then .errored else .terminated

/-- The instant an execution ends at: its lifetime, or now. -/
def endedAt (deadlineAt timestamp : Instant) : Instant := min deadlineAt timestamp

/-- `finalizeTermination`. -/
def finalizeTermination (current : InstanceRow) (timestamp : Instant) : Db :=
  (db.updateInstances
    (fun r => asRead current r && !r.status.terminal &&
      decide (r.terminationRequested = true ∧ timestamp < r.retentionUntil)) fun r =>
    { r with
      status := terminationStatus current timestamp
      outputJson := none
      error := if current.deadlineAt ≤ timestamp then some .lifetimeExceeded else none
      retentionUntil := endedAt current.deadlineAt timestamp + retentionMs
      wakeAt := none
      pendingStepName := none
      runOwner := none
      runLeaseUntil := none
      terminationRequested := false
      updatedAt := endedAt current.deadlineAt timestamp }).cleanup current.toIncarnation fun r =>
    decide (r.toIncarnation = current.toIncarnation ∧ r.status = terminationStatus current timestamp)

/-- The batch of `sweepExpired`, of the executions that its query found. -/
def sweep (executionIds : List String) (timestamp : Instant) : Db :=
  db.remove fun r => decide (r.executionId ∈ executionIds ∧ r.retentionUntil ≤ timestamp)

/-! ### Events -/

/-- What a caller sends: the type, the payload and the instant it was sampled at. -/
structure Event where
  type : String
  payloadJson : Option String
  timestamp : Instant

/-- The row of an accepted event. -/
def queued (i : Incarnation) (event : Event) : EventRow where
  eventId := db.lastEventId + 1
  key := i.toInstanceKey
  executionId := i.executionId
  type := event.type
  payloadJson := event.payloadJson
  createdAt := event.timestamp

/-- The event is at the end of the queue. -/
def enqueue (i : Incarnation) (event : Event) : Db :=
  { db with events := db.events ++ [db.queued i event], lastEventId := db.lastEventId + 1 }

/-- The batch of `sendEvent` without the exact v3 contract: the event, and the instance that waits
for it is due. -/
def sendLegacy (i : Incarnation) (event : Event) : Db × Bool :=
  let open_ (r : InstanceRow) : Bool := decide (r.toIncarnation = i ∧
    event.timestamp < r.retentionUntil ∧ event.timestamp < r.deadlineAt)
  let accepted := db.instances.any fun r => open_ r && !r.status.terminal
  let db' := if accepted then db.enqueue i event else db
  (db'.updateInstances
    (fun r => open_ r && decide (r.status = .waiting) && db'.steps.any fun p =>
      p.isOf r && decide (r.pendingStepName = some p.name ∧ p.config.kind = .wait ∧
        p.waitType = some event.type ∧ p.state = .waiting)) fun r =>
    { r with
      wakeAt := some (match r.wakeAt with
        | none => event.timestamp
        | some wakeAt => min wakeAt event.timestamp) }, accepted)

/-- `PendingWorkflowWait`. -/
structure PendingWait where
  name : String
  timeoutAt : Instant
  revision : ℕ

/-- The condition that a v3 send puts on the instance that it has read. -/
def awake (attempt r : InstanceRow) (event : Event) : Bool :=
  decide (r.toIncarnation = attempt.toIncarnation ∧ r.revision = attempt.revision ∧
    r.terminationRequested = false ∧ event.timestamp < r.deadlineAt ∧
    event.timestamp < r.retentionUntil)

/-- The instance as a direct delivery asks for it. -/
def parked (attempt r : InstanceRow) (event : Event) (name : String) : Bool :=
  awake attempt r event && decide (r.status = .waiting ∧ r.pendingStepName = some name ∧
    r.runOwner = none ∧ r.runLeaseUntil = none)

/-- The row that `readPendingWait` finds. -/
def pendingWaitRow (attempt : InstanceRow) (event : Event) : Option StepRow :=
  db.steps.find? fun p =>
    (db.instances.any fun r => p.isOf r && parked attempt r event p.name) &&
      decide (p.config.kind = .wait ∧ p.state = .waiting ∧ p.waitType = some event.type)

/-- `readPendingWait`. -/
def readPendingWait (attempt : InstanceRow) (event : Event) : Option PendingWait :=
  match db.pendingWaitRow attempt event with
  | none => none
  | some p =>
    match p.timeoutAt with
    | none => none
    | some timeoutAt =>
      if timeoutAt < event.timestamp then none else some ⟨p.name, timeoutAt, p.revision⟩

/-- The step that a direct delivery completes. -/
def direct (attempt : InstanceRow) (event : Event) (wait : PendingWait) (live : Bool)
    (p : StepRow) : Bool :=
  p.isStep attempt.toIncarnation wait.name &&
    decide (p.config.kind = .wait ∧ p.state = .waiting ∧ p.waitType = some event.type ∧
      p.timeoutAt = some wait.timeoutAt ∧ p.revision = wait.revision) &&
    (db.instances.any fun r => parked attempt r event wait.name && live) &&
    db.events.all fun e => !decide (e.key = attempt.toInstanceKey ∧
      e.executionId = attempt.executionId ∧ e.type = event.type ∧ e.createdAt ≤ wait.timeoutAt)

/-- The first two statements of the direct batch. -/
def deliver (attempt : InstanceRow) (event : Event) (wait : PendingWait) (live : Bool) :
    Db × Bool :=
  let db' : Db := { db with
    steps := Table.update (db.direct attempt event wait live) (fun p =>
      { p with
        state := .complete
        resultJson := event.payloadJson
        error := none
        wakeAt := none
        updatedAt := event.timestamp
        revision := p.revision + 1 }) db.steps }
  let due (r : InstanceRow) : Bool := parked attempt r event wait.name && live &&
    db'.steps.any fun p => p.isOf r && decide (p.name = wait.name ∧ p.config.kind = .wait ∧
      p.state = .complete ∧ p.waitType = some event.type ∧ p.timeoutAt = some wait.timeoutAt ∧
      p.revision = wait.revision + 1 ∧ p.updatedAt = event.timestamp ∧
      p.resultJson = event.payloadJson)
  (db'.updateInstances due fun r =>
    { r with wakeAt := some event.timestamp, updatedAt := event.timestamp },
    db.steps.any (db.direct attempt event wait live))

/-- `queueInsertStatement`. -/
def queueInsert (attempt : InstanceRow) (event : Event) (live : Bool) : Db × Bool :=
  let existing := db.events.filter fun e => decide (e.key = attempt.toInstanceKey ∧
    e.executionId = attempt.executionId)
  let accepted := (db.instances.any fun r => awake attempt r event && !r.status.terminal) && live &&
    decide (existing.length < maxPendingEventCount ∧
      (existing.map fun e => documentBytes e.type e.payloadJson).sum +
        documentBytes event.type event.payloadJson ≤ maxPendingEventBytes)
  (if accepted then db.enqueue attempt.toIncarnation event else db, accepted)

/-- The batch of `sendV3Event`: with a wait that was read, the direct delivery and the queue, which
takes the event only if the delivery did not. -/
def sendV3 (attempt : InstanceRow) (event : Event) (wait : Option PendingWait) (live : Bool) :
    Db × Bool :=
  match wait with
  | none => db.queueInsert attempt event live
  | some wait =>
    let delivered := db.deliver attempt event wait live
    let inserted := delivered.1.queueInsert attempt event live
    (inserted.1, delivered.2 || inserted.2)

/-! ### The statements of a run -/

/-- The `WHERE` clause of the `UPDATE` of `runOne` that claims an instance. -/
def claimable (current : InstanceRow) (timestamp : Instant) (live : Bool) (r : InstanceRow) : Bool :=
  decide (r.toIncarnation = current.toIncarnation ∧ r.runEpoch = current.runEpoch) &&
    !r.status.terminal &&
    decide (timestamp < r.deadlineAt ∧ timestamp < r.retentionUntil ∧
      r.terminationRequested = false) &&
    (decide (r.runOwner = none) || r.runLeaseUntil.any fun untilMs => decide (untilMs ≤ timestamp)) &&
    r.wakeAt.all (fun wakeAt => decide (wakeAt ≤ timestamp)) && live

/-- The run takes the row under a lease of its own. -/
def claim (current : InstanceRow) (owner : String) (leaseUntil timestamp : Instant) (live : Bool) :
    Db :=
  db.updateInstances (claimable current timestamp live) fun r =>
    { r with
      status := .running
      runEpoch := r.runEpoch + 1
      runOwner := some owner
      runLeaseUntil := some leaseUntil
      wakeAt := none
      pendingStepName := none
      updatedAt := timestamp }

/-- `clearOwner`. -/
def clearOwner (identity : RunIdentity) : Db :=
  db.updateInstances (InstanceRow.claimedBy identity) fun r =>
    { r with runOwner := none, runLeaseUntil := none }

/-- The `UPDATE` of the heartbeat. -/
def heartbeat (identity : RunIdentity) (next timestamp : Instant) (live : Bool) : Db :=
  db.updateInstances (InstanceRow.runnable identity timestamp live) fun r =>
    { r with runLeaseUntil := some next }

/-- The `UPDATE` of `park`. -/
def park (identity : RunIdentity) (name : String) (status : Status) (wakeAt timestamp : Instant)
    (live : Bool) : Db :=
  db.updateInstances (InstanceRow.runnable identity timestamp live) fun r =>
    { r with
      status := status
      pendingStepName := some name
      wakeAt := some (if status = .waiting ∧ (db.steps.any fun p => p.isOf r &&
        decide (p.name = name) && db.events.any fun e => p.awaits e) then timestamp else wakeAt)
      runOwner := none
      runLeaseUntil := none
      updatedAt := timestamp }

/-- `TerminalOutcome`. -/
inductive Outcome where
  | complete (output : Option String)
  | failed (reason : ErrorReason)

/-- The guard of `terminalize`. -/
def terminalGuard (identity : RunIdentity) (timestamp : Instant) (live : Bool) (r : InstanceRow) :
    Bool :=
  r.claimedBy identity && decide (r.terminationRequested = false) && !r.status.terminal && live &&
    if identity.deadlineAt ≤ timestamp then decide (r.deadlineAt ≤ timestamp)
    else decide (r.status = .running) && r.leased timestamp && decide (timestamp < r.deadlineAt)

/-- What `terminalize` publishes. -/
def published (identity : RunIdentity) (outcome : Outcome) (timestamp : Instant) :
    Status × Option String × Option ErrorReason :=
  if identity.deadlineAt ≤ timestamp then (.errored, none, some .lifetimeExceeded)
  else
    match outcome with
    | .complete output => (.complete, output, none)
    | .failed reason => (.errored, none, some reason)

/-- `terminalize`. -/
def terminalize (identity : RunIdentity) (outcome : Outcome) (timestamp : Instant) (live : Bool) :
    Db :=
  (db.updateInstances (terminalGuard identity timestamp live) fun r =>
    { r with
      status := (published identity outcome timestamp).1
      outputJson := (published identity outcome timestamp).2.1
      error := (published identity outcome timestamp).2.2
      retentionUntil := endedAt identity.deadlineAt timestamp + retentionMs
      wakeAt := none
      pendingStepName := none
      updatedAt := endedAt identity.deadlineAt timestamp }).cleanup identity.toIncarnation fun r =>
    r.claimedBy identity && r.status.terminal

/-- The insert of `step`; its primary key aborts it. -/
def insertStep (identity : RunIdentity) (name : String) (config : StepConfig) (timestamp : Instant)
    (live : Bool) : Db × Bool :=
  if db.runExists identity timestamp live &&
      decide ((db.steps.countP fun p => decide (p.execution.executionId = identity.executionId ∧
        p.execution.createdAt = identity.createdAt)) < maxSteps) &&
      (db.readStep identity.toIncarnation name).isNone then
    ({ db with steps := db.steps ++ [
        { execution := identity.toIncarnation
          name := name
          config := config
          state := .pending
          createdAt := timestamp
          updatedAt := timestamp }] }, true)
  else (db, false)

/-- What `changeStep` assigns. -/
inductive Assignment where
  /-- The delay of a retry is over. -/
  | resume
  | complete (resultJson : Option String)
  | errored (reason : StepError)
  /-- An attempt failed and another is due. -/
  | retry (attempt : ℕ) (wakeAt : Instant)
  | sleep (wakeAt : Instant)
  | await (type : String) (timeoutAt : Instant)
  deriving DecidableEq

/-- What an update of a step writes. -/
def Assignment.apply : Assignment → StepRow → StepRow
  | .resume, p => { p with state := .pending, wakeAt := none }
  | .complete resultJson, p =>
      { p with state := .complete, resultJson, error := none, wakeAt := none, timeoutAt := none }
  | .errored reason, p => { p with state := .errored, error := some reason }
  | .retry attempt wakeAt, p =>
      { p with state := .retryWait, retryProgress := some attempt, wakeAt := some wakeAt }
  | .sleep wakeAt, p => { p with state := .waiting, wakeAt := some wakeAt }
  | .await type timeoutAt, p =>
      { p with
        state := .waiting
        waitType := some type
        timeoutAt := some timeoutAt
        wakeAt := some timeoutAt }

/-- The step that a write of a run changes. -/
def changes (identity : RunIdentity) (name : String) (revision : ℕ) (timestamp : Instant)
    (live : Bool) (p : StepRow) : Bool :=
  p.isStep identity.toIncarnation name && decide (p.revision = revision) &&
    db.runExists identity timestamp live

/-- `changeStep`. -/
def changeStep (identity : RunIdentity) (name : String) (revision : ℕ) (assignment : Assignment)
    (timestamp : Instant) (live : Bool) : Db × Bool :=
  ({ db with steps := Table.update (db.changes identity name revision timestamp live) (fun p =>
      { assignment.apply p with updatedAt := timestamp, revision := p.revision + 1 }) db.steps },
    db.steps.any (db.changes identity name revision timestamp live))

/-- The batch of `waitForEvent`: the step takes the payload, and the event goes. -/
def consume (identity : RunIdentity) (name : String) (revision : ℕ) (w : EventWhere)
    (timestamp : Instant) (live : Bool) : Db × Bool :=
  let taken (p : StepRow) : Bool := db.changes identity name revision timestamp live p &&
    decide (p.state = .waiting) && db.events.any (EventRow.meets identity.toIncarnation w)
  let db' : Db := { db with steps := Table.update taken (fun p =>
    { p with
      state := .complete
      resultJson := ((db.events.find? (EventRow.meets identity.toIncarnation w)).map
        EventRow.payloadJson).getD none
      error := none
      wakeAt := none
      updatedAt := timestamp
      revision := p.revision + 1 }) db.steps }
  let settled := db'.steps.any fun p => p.isStep identity.toIncarnation name &&
    decide (p.revision = revision + 1 ∧ p.state = .complete)
  ({ db' with events := Table.delete (fun e => e.meets identity.toIncarnation w && settled &&
      db'.runExists identity timestamp live) db'.events },
    db.steps.any taken && db'.events.any fun e => e.meets identity.toIncarnation w && settled &&
      db'.runExists identity timestamp live)

/-- The query of `waitForEvent`: the first event of the type that came in time. -/
def nextEvent (i : Incarnation) (type : String) (timeoutAt : Instant) : Option EventRow :=
  (db.events.filter fun e => decide (e.key = i.toInstanceKey ∧ e.executionId = i.executionId ∧
    e.type = type ∧ e.createdAt ≤ timeoutAt)).foldl (fun best e =>
      match best with
      | none => some e
      | some b => if b.eventId ≤ e.eventId then some b else some e) none

end Db

end Takoserver.Workflow
