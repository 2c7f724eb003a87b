import Takoserver.Json
import Takoserver.Lib.Table

/-!
# The Takoform v2 schema

The tables of `migrations/0070_takoform_v2.sql`, `0071`, `0073` and `0081` that
hold Resources, Operations and reference edges, with their `CHECK`s, unique
indexes and triggers.  A write either yields the next database or aborts
(`none`): a failed `CHECK`, a unique violation and `RAISE(ABORT, …)` all roll
back the whole batch they stand in.

Ids (`crypto.randomUUID()`) are numbers of which only equality is used, and
instants are numbers of milliseconds.
-/

namespace Takoserver.V2

/-- A value of `crypto.randomUUID()`. -/
abbrev Uuid := ℕ

/-- Milliseconds. -/
abbrev Instant := ℕ

/-- `action` of an Operation. -/
inductive Action where
  | create
  | update
  | delete
  deriving DecidableEq

/-- `status` of an Operation. -/
inductive Status where
  | queued
  | running
  | waitingInput
  | reconciling
  | succeeded
  | failed
  deriving DecidableEq

/-- `effect` of an Operation. -/
inductive Effect where
  | none
  | unknown
  | partially
  | complete
  deriving DecidableEq

/-- `phase` of a Resource. -/
inductive Phase where
  | pending
  | idle
  | deleting
  | error
  deriving DecidableEq

/-- `readiness` of a Resource. -/
inductive Readiness where
  | observed
  | ready
  deriving DecidableEq

/-- Why input is required. -/
inductive InputRequiredReason where
  | expired
  | unavailable

/-- A status no transition leaves. -/
def Status.terminal : Status → Bool
  | .succeeded | .failed => true
  | _ => false

/-- The transitions `tf_v2_operation_transition` (0081) lets through. -/
def Status.transition : Status → Status → Bool
  | .queued, .running => true
  | .running, .running | .running, .reconciling | .running, .waitingInput | .running, .failed => true
  | .waitingInput, .queued => true
  | .reconciling, .reconciling | .reconciling, .succeeded | .reconciling, .failed => true
  | _, _ => false

/-- `tf_v2_resources`. -/
structure ResourceRow where
  uid : Uuid
  principal : String
  formUrl : String
  space : String
  name : String
  backendId : String
  targetKey : String
  activeName : Option String
  generation : ℕ
  observedGeneration : ℕ := 0
  observedAt : Option Instant := none
  phase : Phase
  spec : Json
  observed : Json := .obj []
  output : Json := .obj []
  lastOperation : Uuid
  busyOperation : Option Uuid
  deletedAt : Option Instant := none

/-- `tf_v2_operations`. -/
structure OperationRow where
  id : Uuid
  resourceUid : Uuid
  principal : String
  replayKey : String
  requestFingerprint : String
  action : Action
  generation : ℕ
  status : Status
  effect : Effect
  createdAt : Instant
  updatedAt : Instant
  retainUntil : Instant
  backendId : String
  targetKey : String
  backendKey : Uuid
  acceptedSpec : Json
  dispatchPossible : Bool := false
  nextAttemptAtMs : Instant := 0
  leaseToken : Option Uuid := none
  leaseUntilMs : Option Instant := none
  errorCode : Option String := none
  errorMessage : Option String := none
  resultObserved : Option Json := none
  resultOutput : Option Json := none
  privateInputsPresent : Bool := false
  inputRequiredNames : Option String := none
  inputRequiredReason : Option InputRequiredReason := none

/-- The `CHECK`s of `tf_v2_resources`. -/
def ResourceRow.check (r : ResourceRow) : Bool :=
  decide (1 ≤ r.generation) && decide (r.observedGeneration ≤ r.generation) &&
    (r.activeName.isNone == r.deletedAt.isSome) &&
    (r.activeName.isNone || r.activeName == some r.name)

/-- `tf_v2_resource_identity_immutable`. -/
def ResourceRow.sameIdentity (old new : ResourceRow) : Bool :=
  new.uid == old.uid && new.principal == old.principal && new.formUrl == old.formUrl &&
    new.space == old.space && new.name == old.name && new.backendId == old.backendId &&
    new.targetKey == old.targetKey

/-- `tf_v2_operation_identity_immutable`. -/
def OperationRow.sameIdentity (old new : OperationRow) : Bool :=
  new.id == old.id && new.resourceUid == old.resourceUid && new.principal == old.principal &&
    new.replayKey == old.replayKey && new.requestFingerprint == old.requestFingerprint &&
    new.action == old.action && new.generation == old.generation &&
    new.createdAt == old.createdAt && new.backendId == old.backendId &&
    new.targetKey == old.targetKey && new.backendKey == old.backendKey &&
    new.acceptedSpec == old.acceptedSpec &&
    new.privateInputsPresent == old.privateInputsPresent

/-- The `CHECK`s of `tf_v2_operations`. -/
def OperationRow.check (o : OperationRow) : Bool :=
  decide (1 ≤ o.generation) &&
    (match o.status with
      | .succeeded => o.effect == .complete && o.errorCode.isNone && o.errorMessage.isNone
      | .failed => (o.effect == .none || o.effect == .partially) &&
          o.errorCode.isSome && o.errorMessage.isSome
      | .reconciling => o.effect == .unknown && (o.errorCode.isNone == o.errorMessage.isNone)
      | .queued | .running | .waitingInput => o.effect == .none &&
          o.errorCode.isNone && o.errorMessage.isNone) &&
    (o.leaseToken.isNone == o.leaseUntilMs.isNone)

/-- The transfer half of `tf_v2_private_inputs`: its four columns are null together. -/
structure Transfer where
  keyId : String
  nonce : String
  ciphertext : String
  expiresAtMs : Instant

/-- `tf_v2_private_inputs`. -/
structure PrivateInputRow where
  operationId : Uuid
  names : String
  comparisonKeyId : String
  comparisonTag : String
  transfer : Option Transfer

/-- The ciphertext a Form keeps: `tf_v2_configured_private_inputs`. -/
structure ConfiguredPrivateInputs where
  keyId : String
  nonce : String
  ciphertext : String
  deriving DecidableEq

/-- `tf_v2_operation_reference_sets`. -/
structure ReferenceSetRow where
  operationId : Uuid
  sealed : Bool

/-- A declared reference, as normalized into the acceptance batch. -/
structure Reference where
  resourceUid : Uuid
  formUrl : String
  readiness : Readiness
  /-- The exact target spec field and its text. -/
  targetSpecMatch : Option (List String × String)

/-- `tf_v2_operation_references`. -/
structure OperationReferenceRow where
  operationId : Uuid
  reference : Reference

/-- `tf_v2_resource_references`: one edge from a referrer to its target. -/
structure Edge where
  targetUid : Uuid
  referrerUid : Uuid
  deriving DecidableEq

/-- The v2 tables. -/
structure Db where
  resources : List ResourceRow := []
  operations : List OperationRow := []
  privateInputs : List PrivateInputRow := []
  configuredPrivateInputs : List (Uuid × ConfiguredPrivateInputs) := []
  operationConfiguredPrivateInputs : List (Uuid × ConfiguredPrivateInputs) := []
  referenceSets : List ReferenceSetRow := []
  operationReferences : List OperationReferenceRow := []
  edges : List Edge := []

namespace Db

/-- The Resource of a uid. -/
def resource (db : Db) (uid : Uuid) : Option ResourceRow := Table.find ResourceRow.uid db.resources uid

/-- The Operation of an id. -/
def operation (db : Db) (id : Uuid) : Option OperationRow :=
  Table.find OperationRow.id db.operations id

/-! ### Resources -/

/-- `INSERT INTO tf_v2_resources`: the primary key and the unique active name of a Space. -/
def insertResource (db : Db) (row : ResourceRow) : Option Db :=
  if row.check && db.resources.all (fun r => r.uid != row.uid &&
      !(r.space == row.space && r.activeName.isSome && r.activeName == row.activeName)) then
    some { db with resources := db.resources ++ [row] }
  else none

/-- `UPDATE tf_v2_resources` of one row, with `tf_v2_resource_identity_immutable`
before it and `tf_v2_configured_private_delete` after it.  Every statement leaves
the active name or clears it, so its unique index cannot be violated. -/
def updateResource (db : Db) (old new : ResourceRow) : Option Db :=
  if old.sameIdentity new && new.check then
    some { db with
      resources := Table.put ResourceRow.uid new db.resources
      configuredPrivateInputs :=
        if old.deletedAt.isNone && new.deletedAt.isSome then
          db.configuredPrivateInputs.filter fun row => row.1 != new.uid
        else db.configuredPrivateInputs }
  else none

/-! ### Operations -/

/-- `INSERT INTO tf_v2_operations`: the primary key, the unique replay key of a
principal, the unique backend key and the Resource it belongs to. -/
def insertOperation (db : Db) (row : OperationRow) : Option Db :=
  if row.check && (db.resource row.resourceUid).isSome &&
      db.operations.all (fun o => o.id != row.id && o.backendKey != row.backendKey &&
        !(o.principal == row.principal && o.replayKey == row.replayKey)) then
    some { db with operations := db.operations ++ [row] }
  else none

/-- `tf_v2_terminal_guard`: an Operation ends only as the one its Resource is busy with. -/
def terminalGuard (db : Db) (old new : OperationRow) : Bool :=
  !(new.status.terminal && !old.status.terminal) ||
    match db.resource new.resourceUid with
    | some r => r.generation == new.generation && r.busyOperation == some new.id &&
        r.lastOperation == new.id
    | none => false

/-- What `tf_v2_terminal_project` makes of the Resource of an Operation that ended. -/
def terminalResource (r : ResourceRow) (o : OperationRow) : ResourceRow :=
  { r with
    phase := if o.status = .failed then .error else .idle
    observedGeneration := if o.status = .succeeded then o.generation else r.observedGeneration
    observedAt := if o.resultObserved.isSome then some o.updatedAt else r.observedAt
    observed := o.resultObserved.getD r.observed
    output := o.resultOutput.getD r.output
    activeName := if o.status = .succeeded ∧ o.action = .delete then none else r.activeName
    deletedAt := if o.status = .succeeded ∧ o.action = .delete then some o.updatedAt
      else r.deletedAt
    busyOperation := none }

/-- `tf_v2_terminal_project`. -/
def terminalProject (db : Db) (old new : OperationRow) : Option Db :=
  if new.status.terminal && !old.status.terminal then
    match db.resource new.resourceUid with
    | some r => db.updateResource r (terminalResource r new)
    | none => some db
  else some db

/-- The targets an accepted Operation refers to. -/
def wanted (db : Db) (operationId target : Uuid) : Bool :=
  db.operationReferences.any fun row =>
    row.operationId == operationId && row.reference.resourceUid == target

/-- `tf_v2_reference_success_replace`: a confirmed complete replacement retires the
previous edges. -/
def referenceSuccessReplace (db : Db) (old new : OperationRow) : Db :=
  if new.status == .succeeded && old.status != .succeeded && new.action != .delete &&
      db.referenceSets.any (fun row => row.operationId == new.id && row.sealed) then
    { db with edges := db.edges.filter fun edge =>
        edge.referrerUid != new.resourceUid || db.wanted new.id edge.targetUid }
  else db

/-- `tf_v2_reference_successful_delete`. -/
def referenceSuccessfulDelete (db : Db) (old new : OperationRow) : Db :=
  if new.status == .succeeded && old.status != .succeeded && new.action == .delete then
    { db with edges := db.edges.filter fun edge => edge.referrerUid != new.resourceUid }
  else db

/-- `tf_v2_private_transfer_dispatched` and `tf_v2_private_transfer_waiting`. -/
def clearTransfer (db : Db) (old new : OperationRow) : Db :=
  if (!old.dispatchPossible && new.dispatchPossible) || new.status == .waitingInput then
    { db with privateInputs := db.privateInputs.map fun row =>
        if row.operationId = new.id then { row with transfer := none } else row }
  else db

/-- `UPDATE tf_v2_operations SET status = …` of one row: the triggers before it
check, the triggers after it project. -/
def updateOperation (db : Db) (old new : OperationRow) : Option Db :=
  if old.sameIdentity new && new.check && old.status.transition new.status &&
      db.terminalGuard old new then
    (terminalProject { db with operations := Table.put OperationRow.id new db.operations }
      old new).map fun db =>
        clearTransfer (referenceSuccessfulDelete (referenceSuccessReplace db old new) old new)
          old new
  else none

/-! ### References -/

/-- The Operation and Resource a reference set may still be written for: the queued
create or update its Resource is busy with. -/
def openReferrer (db : Db) (operationId : Uuid) : Option (OperationRow × ResourceRow) :=
  match db.operation operationId with
  | none => none
  | some o =>
    match db.resource o.resourceUid with
    | none => none
    | some r =>
      if o.action != .delete && o.status == .queued && o.principal == r.principal &&
          r.deletedAt.isNone && r.busyOperation == some o.id && r.lastOperation == o.id &&
          r.generation == o.generation then
        some (o, r)
      else none

/-- `INSERT INTO tf_v2_operation_reference_sets`, under its guard trigger. -/
def insertReferenceSet (db : Db) (operationId : Uuid) : Option Db :=
  if (db.openReferrer operationId).isSome &&
      db.referenceSets.all (fun row => row.operationId != operationId) then
    some { db with referenceSets := db.referenceSets ++ [⟨operationId, false⟩] }
  else none

/-- The target conditions of `tf_v2_operation_reference_guard`. -/
def targetAvailable (referrer target : ResourceRow) (reference : Reference) : Bool :=
  target.principal == referrer.principal && target.space == referrer.space &&
    target.formUrl == reference.formUrl && target.deletedAt.isNone &&
    target.busyOperation.isNone && target.phase == .idle &&
    target.observedGeneration == target.generation &&
    (reference.readiness == .observed || target.observed.trueAt ["ready"]) &&
    match reference.targetSpecMatch with
    | none => true
    | some (path, equals) => target.spec.textAt? path == some equals

/-- `INSERT OR IGNORE INTO tf_v2_resource_references` by `tf_v2_operation_reference_reserve`;
`tf_v2_resource_reference_insert_guard` aborts even where the edge exists. -/
def insertEdge (db : Db) (edge : Edge) : Option Db :=
  match db.resource edge.targetUid, db.resource edge.referrerUid with
  | some target, some referrer =>
    if target.deletedAt.isNone && target.busyOperation.isNone && target.phase == .idle &&
        decide (0 < target.observedGeneration) && referrer.deletedAt.isNone then
      some (if edge ∈ db.edges then db else { db with edges := db.edges ++ [edge] })
    else none
  | _, _ => none

/-- `INSERT INTO tf_v2_operation_references`, under its guard, reserving the edge. -/
def insertOperationReference (db : Db) (operationId : Uuid) (reference : Reference) : Option Db :=
  match db.openReferrer operationId, db.resource reference.resourceUid with
  | some (o, referrer), some target =>
    if db.referenceSets.any (fun row => row.operationId == operationId && !row.sealed) &&
        targetAvailable referrer target reference &&
        !db.wanted operationId reference.resourceUid then
      insertEdge { db with operationReferences :=
          db.operationReferences ++ [⟨operationId, reference⟩] }
        ⟨reference.resourceUid, o.resourceUid⟩
    else none
  | _, _ => none

/-- `UPDATE tf_v2_operation_reference_sets SET sealed = 1 … AND sealed = 0`, under
`tf_v2_operation_reference_set_immutable`. -/
def sealReferenceSet (db : Db) (operationId : Uuid) : Option Db :=
  if db.referenceSets.any (fun row => row.operationId == operationId && !row.sealed) then
    if (db.openReferrer operationId).isSome then
      some { db with referenceSets := db.referenceSets.map fun row =>
        if row.operationId = operationId then ⟨operationId, true⟩ else row }
    else none
  else some db

end Db

end Takoserver.V2
