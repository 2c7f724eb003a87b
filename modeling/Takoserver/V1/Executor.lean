import Takoserver.Lib.Machine
import Takoserver.V1.Commits

/-!
# Executors

`executeProviderMutation` of `src/takoform/engine.ts`, one statement at a time:
acquire the saga, reserve the dependencies or read the accepted ones, prepare,
mark the dispatch, enter the provider and record its receipt; or, where
something throws, the `catch` block with its five settlements.

Between any two steps an executor may stop for good, or for so long that its
lease expires.  A statement may take effect although its acknowledgement is
lost, and the executor then sees an error.  The callbacks and the provider are
oracles: what they answer is part of the action.

A Host has any number of executors on one database.  The acceptance of a saga,
the abandonment of a plan, the commits and every change of the other tables
reach the database in between.
-/

namespace Takoserver.V1

/-! ### Commands and failures -/

/-- The input of `executeProviderMutation`.  `importReplayKey` and `concludesFailure` say
whether the callbacks `settleDefinitiveImportFailure` and `commitDefinitiveFailure` are given. -/
structure Command where
  ref : SagaRef
  fingerprint : String
  authorityHeadDigest : Option String
  claimOwner : Option Owner
  dependencies : Option DependencySet
  importReplayKey : Option String
  concludesFailure : Bool

/-- The actions a `ProviderMutationWholeOperationRefusalError` names. -/
inductive RefusedAction where
  | recoverAdopt
  | convergeApply
  | concludeApplyNoEffect
  deriving DecidableEq

/-- What the `catch` block distinguishes: the error classes of `src/provider-driver.ts`, a
further `TakoformHostError` by its code, and anything else. -/
inductive Failure where
  | noEffectUnsupported
  | recovery (code : String) (outcome : ProviderOutcome) (providerHandle : Option String)
  | definitiveRefusal (code : String)
  | wholeOperationRefusal (code : String) (action : RefusedAction)
  | compensated (code : String)
  | host (code : String)
  | other
  deriving DecidableEq

namespace Failure

/-- `error instanceof TakoformHostError && error.code === "import_conflict"`. -/
def isImportConflict : Failure → Bool
  | recovery code .. | definitiveRefusal code | wholeOperationRefusal code _ | compensated code
  | host code => code = "import_conflict"
  | _ => false

/-- The failure is a definitive refusal. -/
def isRefusal : Failure → Bool
  | definitiveRefusal _ => true
  | _ => false

end Failure

/-! ### The choice of a settlement -/

/-- What the `catch` block does next. -/
inductive Settlement where
  | recordOutcome (outcome : ProviderOutcome) (providerHandle : Option String)
  | commitDefinitiveFailure
  | precondition (action : Option RecoveryAction)
  | none
  deriving DecidableEq

/-- What the `catch` block knows: the mode, how far the attempt came, and whether a refusal
proves the whole attempt idle. -/
structure Caught where
  mode : Mode
  dispatchMarked : Bool
  executeEntered : Bool
  provesIdle : Bool
  failure : Failure
  deriving DecidableEq

namespace Command

variable (command : Command) (c : Caught)

/-- `definitiveImportFailureOutcome`. -/
def importFailureIsDefinitive : Bool :=
  c.executeEntered && c.provesIdle && command.importReplayKey.isSome &&
    ((decide (c.mode = .initial) && c.failure.isImportConflict) ||
      (decide (c.mode = .recovery) &&
        match c.failure with
        | .wholeOperationRefusal _ .recoverAdopt => true
        | _ => false))

/-- `definitiveApplyAbort`, with its action. -/
def applyAbort : Option RecoveryAction :=
  if decide (c.mode = .recovery) && command.concludesFailure && c.provesIdle then
    match c.failure with
    | .wholeOperationRefusal _ .convergeApply => some .convergeApply
    | .wholeOperationRefusal _ .concludeApplyNoEffect => some .concludeApplyNoEffect
    | _ => none
  else none

/-- `definitiveRefusal`. -/
def refusalIsDefinitive : Bool :=
  (decide (c.mode = .initial) && c.provesIdle && c.failure.isRefusal) ||
    (command.applyAbort c).isSome ||
    (decide (c.mode = .recovery) && command.concludesFailure &&
      match c.failure with
      | .compensated _ => true
      | _ => false)

/-- The path the `catch` block takes once no import failure was settled. -/
def afterCatch : Settlement :=
  match c.failure with
  | .recovery _ outcome providerHandle => .recordOutcome outcome providerHandle
  | _ =>
    if c.executeEntered && !command.refusalIsDefinitive c then .recordOutcome .indeterminate none
    else if command.refusalIsDefinitive c && command.concludesFailure then .commitDefinitiveFailure
    else if (decide (c.mode = .initial) && c.dispatchMarked && !c.executeEntered) ||
        (c.executeEntered && command.refusalIsDefinitive c) then
      .precondition (command.applyAbort c)
    else .none

end Command

/-! ### Stages -/

/-- Where an executor stands. -/
inductive Stage where
  | acquireInitial
  | acquireRecovery
  /-- Reads the phase, once no acquisition changed a row. -/
  | readPhase
  /-- Reserves its dependencies, or reads the accepted ones. -/
  | dependencies (mode : Mode)
  /-- Runs `input.prepare`, which binds the selection. -/
  | prepare (mode : Mode)
  | mark (mode : Mode)
  /-- Runs `input.onDispatch`. -/
  | dispatched (mode : Mode)
  /-- Is inside `input.execute`. -/
  | entered (mode : Mode)
  | receipt (mode : Mode) (receiptJson : String)
  /-- In the `catch` block, before it knows whether the attempt is idle. -/
  | caught (mode : Mode) (failure : Failure)
  | settleImport (c : Caught)
  | settle (c : Caught) (settlement : Settlement)
  /-- Releases its lease; `only` where it throws right after. -/
  | release (only : Bool)
  /-- Releases the dependencies of an owner. -/
  | releaseDependencies (owner : Owner)
  | returned (receiptJson : String)
  | stopped
  deriving DecidableEq

/-- An executor: its command and lease, and the local variables of the function.  `serial` is a
ghost: the row its dispatch was marked on. -/
structure Executor where
  command : Command
  lease : Lease
  stage : Stage := .acquireInitial
  dependencySet : Option (DependencySet × Owner) := none
  dispatchMarked : Bool := false
  executeEntered : Bool := false
  serial : Option ℕ := none

/-- What the log records of the initial mode. -/
inductive Event where
  /-- An initial dispatch took effect on a saga. -/
  | dispatched (serial : ℕ)
  /-- The provider was entered in initial mode. -/
  | entered (serial : ℕ)
  deriving DecidableEq

/-- What becomes of a statement: its answer is seen, it takes effect but the answer is lost, or
it never reaches the database. -/
inductive Delivery where
  | answered
  | lost
  | refused
  deriving DecidableEq

/-- What a step takes from outside the executor. -/
inductive Choice where
  /-- The stage's statement. -/
  | run (delivery : Delivery)
  | bindApply (selectionJson : String) (delivery : Delivery)
  | bindImport (selection : ImportSelection) (elsewhere : Bool) (delivery : Delivery)
  /-- The dependencies that were read, or that there are none. -/
  | read (dependencies : Option DependencySet)
  /-- The callback returned. -/
  | proceed
  /-- The provider answered. -/
  | answer (receiptJson : String)
  /-- The callback or a read threw. -/
  | throws (failure : Failure)
  /-- `providerRefusalProvesWholeAttemptIdle()`. -/
  | provesIdle (idle : Bool)
  /-- The callback `commitDefinitiveFailure` commits this. -/
  | conclude (c : DefinitiveFailure) (elsewhere : Bool) (delivery : Delivery)

/-! ### Steps -/

/-- Run a statement.  `aborted` is where the executor stands when a constraint refused it, and
`failed` where it stands when the answer does not arrive. -/
def deliver (delivery : Delivery) (t : Tables) (outcome : Option (Bool × Tables))
    (next : Bool → Stage) (aborted failed : Stage) : Tables × Stage :=
  match delivery, outcome with
  | .answered, some (changed, t') => (t', next changed)
  | .answered, none => (t, aborted)
  | .lost, some (_, t') => (t', failed)
  | .lost, none => (t, failed)
  | .refused, _ => (t, failed)

/-- A statement of the `Sql.run` kind never fails a guard. -/
def always (outcome : Bool × Tables) : Option (Bool × Tables) := some outcome

namespace Executor

variable (x : Executor)

def ref : SagaRef := x.command.ref

/-- The receipt batch answers a constraint by reading the receipt that is stored. -/
def receiptAnswer (receiptJson : String) (t : Tables) : Stage :=
  if executedReceipt x.ref t = some receiptJson then .returned receiptJson
  else .caught .initial (.host "resource_busy")

/-- Where the `catch` block goes once its settlement is over: to the release, or straight to the
dependencies when the saga was settled. -/
def afterSettlement (settled atomically : Bool) : Stage :=
  if !settled then .release false
  else if !x.dispatchMarked && decide (x.dependencySet.map Prod.snd = some (.lease x.lease.token)) then
    .releaseDependencies (.lease x.lease.token)
  else if atomically then .stopped
  else .releaseDependencies (.operation x.ref.operationId)

/-- The dependencies that are released after the lease was. -/
def afterRelease (only : Bool) : Stage :=
  if !only && !x.dispatchMarked && decide (x.dependencySet.map Prod.snd = some (.lease x.lease.token)) then
    .releaseDependencies (.lease x.lease.token)
  else .stopped

/-- The batch of its dispatch. -/
def markOutcome (D : Digests) (mode : Mode) (timestamp : Instant) (t : Tables) :
    Option (Bool × Tables) :=
  markProviderMutationDispatch D x.ref x.lease.token mode x.dependencySet timestamp t

/-- The saga its dispatch is made on. -/
def markedSerial (mode : Mode) (timestamp : Instant) (t : Tables) : Option ℕ :=
  (t.sagas.find? (Saga.isDispatchable x.ref x.lease.token mode timestamp)).map Saga.serial

/-- What the log records of a dispatch: an initial one that took effect. -/
def markEvents (D : Digests) (mode : Mode) (delivery : Delivery) (timestamp : Instant)
    (t : Tables) : List Event :=
  if mode = .initial ∧ delivery ≠ .refused ∧ (x.markOutcome D mode timestamp t).isSome = true then
    ((x.markedSerial mode timestamp t).map Event.dispatched).toList
  else []

/-- An executor, the tables and what the log records, after a step. -/
structure Result where
  tables : Tables
  executor : Executor
  events : List Event := []

/-- The next stage on the given tables. -/
def goes (next : Tables × Stage) : Result :=
  { tables := next.1, executor := { x with stage := next.2 } }

/-- Where the `catch` block goes when no import failure was settled. -/
def settlementStage (c : Caught) : Stage :=
  match x.command.afterCatch c with
  | .none => .release false
  | settlement => .settle c settlement

/-- The statements of the settlements, but for that of an import failure. -/
def settleStep (D : Digests) (timestamp : Instant) (t : Tables) :
    Settlement → Choice → Option Result
  | .recordOutcome outcome providerHandle, .run delivery =>
    if outcome = .planned ∨ providerHandle = some "" ∨ (outcome = .running ∧ providerHandle = none) then
      some (x.goes (t, .stopped))
    else
      some (x.goes (deliver delivery t
        (always (recordProviderMutationOutcome x.ref x.lease.token outcome providerHandle timestamp t))
        (fun _ => .release false) .stopped .stopped))
  | .commitDefinitiveFailure, .conclude failure elsewhere delivery =>
    if failure.ref = x.ref ∧ failure.providerLeaseToken = x.lease.token then
      some (x.goes (deliver delivery t
        (commitDefinitiveProviderMutationFailure D failure elsewhere timestamp t)
        (fun _ => x.afterSettlement true true) (x.afterSettlement false true) .stopped))
    else none
  -- the callback found the same failure already committed
  | .commitDefinitiveFailure, .proceed => some (x.goes (t, x.afterSettlement true true))
  | .commitDefinitiveFailure, .throws _ => some (x.goes (t, .stopped))
  | .precondition action, .run delivery =>
    some (x.goes (deliver delivery t
      (settleProviderMutationPreconditionFailure x.ref x.lease.token action timestamp t)
      (fun settled => x.afterSettlement settled false) .stopped .stopped))
  | _, _ => none

/-- The next step of an executor. -/
def step (D : Digests) (timestamp : Instant) (t : Tables) : Stage → Choice → Option Result
  | .acquireInitial, .run delivery =>
    if x.lease.leaseUntil ≤ timestamp then some (x.goes (t, .stopped))
    else
      some (x.goes (deliver delivery t
        (always (acquireProviderMutationExecution x.ref x.lease .initial timestamp t))
        (fun acquired => if acquired then .dependencies .initial else .acquireRecovery)
        .stopped .stopped))
  | .acquireRecovery, .run delivery =>
    some (x.goes (deliver delivery t
      (always (acquireProviderMutationExecution x.ref x.lease .recovery timestamp t))
      (fun acquired => if acquired then .dependencies .recovery else .readPhase) .stopped .stopped))
  | .readPhase, .run .answered =>
    some (x.goes (t, match executedReceipt x.ref t with
      | some receiptJson => .returned receiptJson
      | none => .stopped))
  | .dependencies mode, .proceed =>
    if x.command.dependencies.isNone then some (x.goes (t, .prepare mode)) else none
  | .dependencies .initial, .run delivery =>
    x.command.dependencies.map fun s =>
      { x with dependencySet := some (s, .lease x.lease.token) }.goes (deliver delivery t
        ((reserveResourceDependencies D s x.lease.token (timestamp + claimReservationTtl) timestamp
          t).map fun t => (true, t))
        (fun _ => .prepare .initial) (.caught .initial (.host "invalid_argument"))
        (.caught .initial .other))
  | .dependencies .recovery, .read none =>
    some (x.goes (t, .caught .recovery (.host "backend_unavailable")))
  | .dependencies .recovery, .read (some s) =>
    some ({ x with dependencySet := some (s, .operation x.ref.operationId) }.goes
      (t, .prepare .recovery))
  | .prepare mode, .bindApply selectionJson delivery =>
    some (x.goes (deliver delivery t
      (always (bindProviderMutationApplySelection x.ref x.command.fingerprint x.lease.token mode
        selectionJson timestamp t))
      (fun bound => if bound then .prepare mode else .caught mode (.host "resource_busy"))
      (.caught mode .other) (.caught mode .other)))
  | .prepare mode, .bindImport selection elsewhere delivery =>
    some (x.goes (deliver delivery t
      (always (bindProviderMutationImportSelection x.ref x.command.fingerprint x.lease.token mode
        selection elsewhere timestamp t))
      (fun bound => if bound then .prepare mode else .caught mode (.host "resource_busy"))
      (.caught mode .other) (.caught mode .other)))
  | .prepare mode, .proceed => some (x.goes (t, .mark mode))
  | .mark mode, .run delivery =>
    let next := deliver delivery t (x.markOutcome D mode timestamp t)
      (fun marked => if marked then .dispatched mode else .caught mode (.host "resource_busy"))
      (.caught mode (.host "resource_busy")) (.caught mode .other)
    some { tables := next.1
           executor := { x with
             stage := next.2
             dispatchMarked := decide (next.2 = .dispatched mode)
             serial := x.markedSerial mode timestamp t }
           events := x.markEvents D mode delivery timestamp t }
  | .dispatched mode, .proceed =>
    some { tables := t
           executor := { x with stage := .entered mode, executeEntered := true }
           events := if mode = .initial then (x.serial.map Event.entered).toList else [] }
  | .entered mode, .answer receiptJson => some (x.goes (t, .receipt mode receiptJson))
  | .receipt mode receiptJson, .run delivery =>
    some (x.goes (deliver delivery t
      ((recordProviderMutationReceipt x.ref x.lease.token x.command.authorityHeadDigest
        x.command.claimOwner receiptJson timestamp t).map fun t => (true, t))
      (fun _ => .returned receiptJson)
      (match x.receiptAnswer receiptJson t with
        | .caught _ failure => .caught mode failure
        | stage => stage)
      (.caught mode .other)))
  -- whatever runs inside the `try` may throw
  | .dependencies mode, .throws failure | .prepare mode, .throws failure
  | .mark mode, .throws failure | .dispatched mode, .throws failure
  | .entered mode, .throws failure | .receipt mode _, .throws failure =>
    some (x.goes (t, .caught mode failure))
  | .caught mode failure, .provesIdle idle =>
    let c : Caught := { mode, dispatchMarked := x.dispatchMarked, executeEntered := x.executeEntered,
                        provesIdle := idle, failure }
    some (x.goes (t,
      if failure = .noEffectUnsupported then .release true
      else if x.command.importFailureIsDefinitive c then .settleImport c
      else x.settlementStage c))
  | .settleImport c, .run delivery =>
    some (x.goes (deliver delivery t
      (settleDefinitiveProviderImportFailure x.ref (x.command.importReplayKey.getD "") x.lease.token
        timestamp t)
      (fun settled => if settled then .releaseDependencies (.operation x.ref.operationId)
        else x.settlementStage c)
      .stopped .stopped))
  | .settle _ settlement, choice => x.settleStep D timestamp t settlement choice
  | .release only, .run delivery =>
    some (x.goes (deliver delivery t
      (always (releaseProviderMutationExecution x.ref x.lease.token t))
      (fun _ => x.afterRelease only) .stopped .stopped))
  | .releaseDependencies owner, .run delivery =>
    some (x.goes (deliver delivery t
      (always (true, releaseResourceDependencies owner x.ref.tenantId x.ref.resourceUid t))
      (fun _ => .stopped) .stopped .stopped))
  | _, _ => none

end Executor

/-! ### The Host -/

/-- A Host: its tables, its executors, and the log. -/
structure Host where
  tables : Tables := {}
  executors : ℕ → Option Executor := fun _ => none
  log : List Event := []

/-- What reaches the database, or starts and stops an executor. -/
inductive Act where
  | accept (record : SagaRecord) (legacy : Bool)
  | rotate (stored : SagaRecord) (replayKey : String)
  | abandon (i : SagaRef) (replayKey : String)
  | commitImmediate (m : Mutation) (operationId : String) (kind : OperationKind) (elsewhere : Bool)
  | commitDeferred (operation : Operation) (m : Mutation) (leaseToken terminalJson : String)
      (elsewhere : Bool)
  | start (executor : ℕ) (command : Command) (lease : Lease)
  | step (executor : ℕ) (choice : Choice)
  /-- An executor stops for good. -/
  | crash (executor : ℕ)
  /-- Whatever else the Host does: the other tables become these. -/
  | others (tables : Tables)

namespace Host

variable (s : Host)

/-- The tables after a batch; an aborted one is not a step. -/
def onTables (tables : Option Tables) : Option Host := tables.map fun tables => { s with tables }

/-- The executor's place after its step. -/
def onExecutor (w : ℕ) (result : Executor.Result) : Host :=
  { tables := result.tables
    executors := Function.update s.executors w (some result.executor)
    log := s.log ++ result.events }

/-- What an action does at an instant. -/
def next (D : Digests) (timestamp : Instant) : Act → Option Host
  | .accept record legacy => s.onTables (acceptProviderMutationSaga record legacy s.tables)
  | .rotate stored replayKey =>
    s.onTables ((rotateReplayKey stored replayKey s.tables).map Prod.snd)
  | .abandon i replayKey =>
    s.onTables ((abandonProviderMutationPlan i replayKey s.tables).map Prod.snd)
  | .commitImmediate m operationId kind elsewhere =>
    s.onTables (commitImmediateMutation D m operationId kind elsewhere timestamp s.tables)
  | .commitDeferred operation m leaseToken terminalJson elsewhere =>
    s.onTables
      (commitDeferredMutation D operation m leaseToken terminalJson elsewhere timestamp s.tables)
  | .start w command lease =>
    if (s.executors w).isNone then
      some { s with executors := Function.update s.executors w (some { command, lease }) }
    else none
  | .step w choice =>
    (s.executors w).bind fun x =>
      (x.step D timestamp s.tables x.stage choice).map (s.onExecutor w)
  | .crash w => some { s with executors := Function.update s.executors w none }
  | .others tables =>
    some { s with tables := { tables with
      sagas := s.tables.sagas
      sagaSerial := s.tables.sagaSerial } }

end Host

/-- All interleavings. -/
def host (D : Digests) : Machine Host (Instant × Act) where
  init := {}
  next s a := s.next D a.1 a.2

end Takoserver.V1
