import Takoserver.V1.Incarnations

/-!
# The statements on a provider mutation saga

`acceptProviderMutationSaga` to `recordProviderMutationReceipt` of
`src/takoform/store.ts`.  A statement that is run alone answers whether it
changed its row; a batch that a guard, a trigger or a unique index aborts
answers `none`.
-/

namespace Takoserver.V1

/-! ### Rows -/

/-- Run one `UPDATE` on the sagas; the answer is `changes === 1`. -/
def updateSaga (p : Saga → Bool) (f : Saga → Saga) (t : Tables) : Bool × Tables :=
  (decide (t.sagas.countP p = 1), { t with sagas := Table.update p f t.sagas })

/-- The triggers `import_selection_retained` and `historical_import_retained`: an import's plan
that may not be deleted. -/
def Saga.isRetained (r : Saga) : Bool :=
  decide (r.operationKind = .import) && r.isPlanned &&
    ((r.importSelection.isSome &&
        (r.executionStartedAt.isNone ||
          decide (r.importSelectionVerifiedLeaseToken ≠ r.lease.map Lease.token))) ||
      !r.importProtocol)

/-- Run one `DELETE` on the sagas. -/
def deleteSaga (p : Saga → Bool) (t : Tables) : Option (Bool × Tables) :=
  if t.sagas.any fun r => p r && r.isRetained then none
  else some (decide (t.sagas.countP p = 1), { t with sagas := Table.delete p t.sagas })

/-! ### Acceptance -/

/-- `ProviderMutationSaga`: the saga a command asks for. -/
structure SagaRecord where
  operationId : String
  operationKind : OperationKind
  replayKey : String
  fingerprint : String
  resourceUid : String
  target : Address
  accepted : Option Accepted
  authorityHeadDigest : Option String
  deriving DecidableEq

/-- The row of a new saga. -/
def SagaRecord.row (record : SagaRecord) (serial : ℕ) : Saga :=
  { serial, operationId := record.operationId, operationKind := record.operationKind,
    replayKey := record.replayKey, fingerprint := record.fingerprint,
    resourceUid := record.resourceUid, target := record.target, accepted := record.accepted,
    authorityHeadDigest := record.authorityHeadDigest,
    importProtocol := record.operationKind = .import }

/-- The record a row was inserted as. -/
def Saga.record (r : Saga) : SagaRecord :=
  { operationId := r.operationId, operationKind := r.operationKind, replayKey := r.replayKey,
    fingerprint := r.fingerprint, resourceUid := r.resourceUid, target := r.target,
    accepted := r.accepted, authorityHeadDigest := r.authorityHeadDigest }

/-- The part of `legacyOperationConflictFence` on provider effects: an attempt that is still
open. -/
def openAttempt (record : SagaRecord) (t : Tables) : Bool :=
  t.effects.any fun e =>
    decide (e.tenantId = record.target.tenantId ∧ (e.phase = .planned ∨ e.phase = .dispatched)) &&
      !t.hasEffect e.tenantId e.resourceUid e.effectId Effect.isTerminal &&
      (decide (e.effectId = record.operationId ∨ e.resourceUid = record.resourceUid) ||
        t.attests e.tenantId e.resourceUid fun a => decide (a.address = record.target))

/-- The trigger `pair_exact`: a deferred operation of the same id describes the same command. -/
def pairIsExact (record : SagaRecord) (t : Tables) : Bool :=
  !(t.operations.any fun o => decide (o.id = record.operationId)) ||
    t.operations.any fun o =>
      decide (o.id = record.operationId ∧ o.operation = record.operationKind ∧
        o.fingerprint = record.fingerprint ∧ o.resourceUid = record.resourceUid ∧
        o.target = record.target ∧ o.accepted = record.accepted)

/-- `INSERT OR IGNORE` of `acceptProviderMutationSaga`.  `legacy` is the clause of its fence on
the tables of the released generation. -/
def acceptProviderMutationSaga (record : SagaRecord) (legacy : Bool) (t : Tables) :
    Option Tables :=
  if legacy || openAttempt record t then some t
  else if !pairIsExact record t then none
  else if t.sagas.any fun r =>
      decide (r.operationId = record.operationId ∨ r.replayKey = record.replayKey ∨
        r.target = record.target) then some t
  else
    some { t with
      sagas := t.sagas ++ [record.row t.sagaSerial]
      sagaSerial := t.sagaSerial + 1 }

/-- A renewed caller takes the stored saga under its own replay key. -/
def rotateReplayKey (stored : SagaRecord) (replayKey : String) (t : Tables) :
    Option (Bool × Tables) :=
  let p := fun r : Saga =>
    decide (r.operationId = stored.operationId ∧ r.replayKey = stored.replayKey ∧
      r.target.tenantId = stored.target.tenantId ∧ r.fingerprint = stored.fingerprint ∧
      r.resourceUid = stored.resourceUid)
  if t.sagas.any fun r => decide (r.replayKey = replayKey) && !p r then none
  else some (updateSaga p (fun r => { r with replayKey }) t)

/-! ### The lease -/

/-- The two `UPDATE`s of `acquireProviderMutationExecution`: a saga that has not started is
acquired in initial mode, one that has in recovery. -/
def acquireProviderMutationExecution (i : SagaRef) (lease : Lease) (mode : Mode)
    (timestamp : Instant) (t : Tables) : Bool × Tables :=
  updateSaga
    (fun r => r.named i && r.isPlanned && r.startedAs mode && leaseIsFree r.lease timestamp)
    (fun r => { r with lease := some lease }) t

/-- The read `acquireProviderMutationExecution` ends with: the stored receipt, if there is one. -/
def executedReceipt (i : SagaRef) (t : Tables) : Option String :=
  (t.sagas.find? fun r => r.named i).bind Saga.receiptJson

/-- `releaseProviderMutationExecution`. -/
def releaseProviderMutationExecution (i : SagaRef) (leaseToken : String) (t : Tables) :
    Bool × Tables :=
  updateSaga
    (fun r => r.named i && r.isPlanned && r.lease.any fun l => decide (l.token = leaseToken))
    (fun r => { r with lease := none }) t

/-! ### Selections -/

/-- Retain the deferred command together with its saga: no end, where the saga satisfies `p`. -/
def retainCommand (i : SagaRef) (p : Saga → Bool) (q : Operation → Bool) (t : Tables) : Tables :=
  if t.sagas.any fun r => r.named i && p r then
    let retained := fun o : Operation =>
      decide (o.id = i.operationId ∧ o.target.tenantId = i.tenantId ∧
        o.resourceUid = i.resourceUid ∧ o.phase = .committing) && q o
    { t with operations :=
        Table.update retained (fun o => { o with expiresAt := repairHorizon }) t.operations }
  else t

/-- A selection is bound once, and in recovery only verified again. -/
def mayBind {α : Type} [DecidableEq α] (mode : Mode) (stored : Option α) (selection : α) : Bool :=
  match mode with
  | .initial => stored.all fun s => decide (s = selection)
  | .recovery => stored = some selection

/-- `bindProviderMutationApplySelection`. -/
def bindProviderMutationApplySelection (i : SagaRef) (fingerprint leaseToken : String) (mode : Mode)
    (selectionJson : String) (timestamp : Instant) (t : Tables) : Bool × Tables :=
  let (bound, t) := updateSaga
    (fun r => r.named i && decide (r.fingerprint = fingerprint ∧ r.operationKind = .apply) &&
      r.accepts leaseToken timestamp && r.startedAs mode &&
      mayBind mode r.selectionJson selectionJson)
    (fun r => { r with
      selectionJson := some (r.selectionJson.getD selectionJson)
      selectionVerifiedLeaseToken := some leaseToken }) t
  (bound, retainCommand i
    (fun r => decide (r.fingerprint = fingerprint ∧ r.selectionJson = some selectionJson ∧
        r.selectionVerifiedLeaseToken = some leaseToken) &&
      r.startedAs mode && r.accepts leaseToken timestamp)
    (fun o => decide (o.operation = .apply)) t)

/-- Another import has selected the same native destination. -/
def destinationIsContended (i : SagaRef) (selection : ImportSelection) (t : Tables) : Bool :=
  selection.destination.any fun d =>
    t.sagas.any fun r =>
      decide (r.operationKind = .import ∧ r.operationId ≠ i.operationId ∧
        (r.importSelection.bind ImportSelection.destination) = some d)

/-- `bindProviderMutationImportSelection`; `elsewhere` is its fence on deployments. -/
def bindProviderMutationImportSelection (i : SagaRef) (fingerprint leaseToken : String)
    (mode : Mode) (selection : ImportSelection) (elsewhere : Bool) (timestamp : Instant)
    (t : Tables) : Bool × Tables :=
  let unfenced := elsewhere && !destinationIsContended i selection t
  let (bound, t) := updateSaga
    (fun r => r.named i && decide (r.fingerprint = fingerprint ∧ r.operationKind = .import) &&
      r.importProtocol && r.accepts leaseToken timestamp && r.startedAs mode &&
      mayBind mode r.importSelection selection && unfenced)
    (fun r => { r with
      importSelection := some (r.importSelection.getD selection)
      importSelectionVerifiedLeaseToken := some leaseToken }) t
  (bound, retainCommand i
    (fun r => decide (r.fingerprint = fingerprint ∧ r.operationKind = .import ∧
        r.importSelection = some selection ∧
        r.importSelectionVerifiedLeaseToken = some leaseToken) &&
      r.importProtocol && r.startedAs mode && r.accepts leaseToken timestamp)
    (fun o => decide (o.operation = .import)) t)

/-! ### Dispatch -/

/-- The triggers `dispatch_verified` and `import_dispatch_verified`: the selection is bound and
verified under the lease that crosses the provider boundary. -/
def Saga.isVerified (r : Saga) : Bool :=
  match r.operationKind with
  | .apply => r.selectionJson.isSome &&
      decide (r.selectionVerifiedLeaseToken.isSome = true ∧
        r.selectionVerifiedLeaseToken = r.lease.map Lease.token)
  | .import => r.importSelection.isSome &&
      decide (r.importSelectionVerifiedLeaseToken.isSome = true ∧
        r.importSelectionVerifiedLeaseToken = r.lease.map Lease.token)
  | .delete => true

/-- The saga may be sent under this lease. -/
def Saga.isDispatchable (i : SagaRef) (leaseToken : String) (mode : Mode) (timestamp : Instant)
    (r : Saga) : Bool :=
  r.named i && r.accepts leaseToken timestamp && r.startedAs mode

/-- What the `UPDATE` of a dispatch sets. -/
def Saga.dispatched (timestamp : Instant) (r : Saga) : Saga :=
  { r with
    executionStartedAt := some (r.executionStartedAt.getD timestamp)
    providerOutcome := if r.executionStartedAt.isNone then .running else r.providerOutcome }

/-- The dependencies of a dispatch are held by its reservation owner, and every target is live. -/
def dependenciesAreCurrent (D : Digests) (i : SagaRef) (owner : Owner) (s : DependencySet)
    (timestamp : Instant) (t : Tables) : Bool :=
  t.ownsDependencies D owner i.tenantId i.resourceUid s (fun c => c.holds timestamp)
      (fun _ => true) &&
    s.fences.all fun f =>
      t.targetIsLive i.tenantId f &&
        t.claims.any fun c =>
          decide (c.key = s.edgeKey D f) && c.ownedFor owner i.tenantId i.resourceUid &&
            c.holds timestamp

/-- The claims of a dispatch pass to its operation; a reserved one is kept without an end. -/
def reownDependencies (i : SagaRef) (owner : Owner) (timestamp : Instant) (claims : List Claim) :
    List Claim :=
  Table.update
    (fun c => c.ownedFor owner i.tenantId i.resourceUid && c.isDependency && c.holds timestamp)
    (fun c => { c with
      owner := .operation i.operationId
      expiresAt := c.expiresAt.map fun _ => repairHorizon }) claims

/-- The batch of `markProviderMutationDispatch`.  A set that is not the operation's own is
refused before the batch. -/
def markProviderMutationDispatch (D : Digests) (i : SagaRef) (leaseToken : String) (mode : Mode)
    (dependencies : Option (DependencySet × Owner)) (timestamp : Instant) (t : Tables) :
    Option (Bool × Tables) :=
  let p := Saga.isDispatchable i leaseToken mode timestamp
  if !(t.sagas.any p) then none
  else if !(dependencies.all fun d =>
      decide (d.1.operationId = i.operationId ∧ d.1.tenantId = i.tenantId ∧
        d.1.holderUid = i.resourceUid) &&
      dependenciesAreCurrent D i d.2 d.1 timestamp t) then none
  else if t.sagas.any fun r => p r && !r.isVerified then none
  else
    let (marked, t) := updateSaga p (Saga.dispatched timestamp) t
    let t := match dependencies with
      | none => t
      | some d => { t with claims := reownDependencies i d.2 timestamp t.claims }
    some (marked, retainCommand i
      (fun r => r.isPlanned && r.executionStartedAt.isSome &&
        r.lease.any fun l => decide (l.token = leaseToken))
      (fun _ => true) t)

/-! ### Outcome and receipt -/

/-- `recordProviderMutationOutcome`. -/
def recordProviderMutationOutcome (i : SagaRef) (leaseToken : String) (outcome : ProviderOutcome)
    (providerHandle : Option String) (timestamp : Instant) (t : Tables) : Bool × Tables :=
  updateSaga
    (fun r => r.named i && r.executionStartedAt.isSome && r.accepts leaseToken timestamp)
    (fun r => { r with providerHandle, providerOutcome := outcome }) t

/-- The reserved claims of an owner become committed. -/
def commitReserved (owner : Owner) (i : SagaRef) (dependency : Bool) (claims : List Claim) :
    List Claim :=
  Table.update
    (fun c => c.ownedFor owner i.tenantId i.resourceUid && c.isReserved &&
      (c.isDependency == dependency))
    (fun c => { c with expiresAt := none }) claims

/-- The batch of `recordProviderMutationReceipt`. -/
def recordProviderMutationReceipt (i : SagaRef) (leaseToken : String)
    (authorityHeadDigest : Option String) (claimOwner : Option Owner) (receiptJson : String)
    (timestamp : Instant) (t : Tables) : Option Tables :=
  let p := fun r : Saga =>
    r.named i && decide (r.authorityHeadDigest = authorityHeadDigest) &&
      r.accepts leaseToken timestamp && r.executionStartedAt.isSome
  if !(t.sagas.any p) then none
  else
    let (_, t) := updateSaga p (fun r => { r with
      receiptJson := some receiptJson
      lease := none
      providerHandle := none
      providerOutcome := .planned }) t
    let claims := match claimOwner with
      | none => t.claims
      | some owner => commitReserved owner i false t.claims
    let retained := fun o : Operation =>
      decide (o.id = i.operationId ∧ o.target.tenantId = i.tenantId ∧
        o.resourceUid = i.resourceUid ∧ o.phase = .committing) &&
        claimOwner.any fun owner => decide (o.lease.map (fun l => Owner.lease l.token) = some owner)
    some { t with
      claims := commitReserved (.operation i.operationId) i true claims
      operations :=
        Table.update retained (fun o => { o with expiresAt := repairHorizon }) t.operations }

/-! ### Deletions -/

/-- `abandonProviderMutationPlan`. -/
def abandonProviderMutationPlan (i : SagaRef) (replayKey : String) (t : Tables) :
    Option (Bool × Tables) :=
  deleteSaga
    (fun r => r.named i && decide (r.replayKey = replayKey) && r.isPlanned &&
      (decide (r.operationKind ≠ .import) || (r.importProtocol && r.importSelection.isNone)) &&
      (decide (r.operationKind ≠ .apply) || r.selectionJson.isNone) &&
      r.lease.isNone && r.executionStartedAt.isNone) t

/-- `settleDefinitiveProviderImportFailure`. -/
def settleDefinitiveProviderImportFailure (i : SagaRef) (replayKey leaseToken : String)
    (timestamp : Instant) (t : Tables) : Option (Bool × Tables) :=
  deleteSaga
    (fun r => r.named i && decide (r.replayKey = replayKey ∧ r.operationKind = .import) &&
      r.importProtocol && r.accepts leaseToken timestamp && r.executionStartedAt.isSome) t

/-- The recoveries a definitive failure can conclude. -/
inductive RecoveryAction where
  | convergeApply
  | concludeApplyNoEffect
  | compensateApply
  deriving DecidableEq

/-- `definitiveProviderFailureOutcomeSql`. -/
def definitiveOutcome (action : Option RecoveryAction) (outcome : ProviderOutcome) : Bool :=
  match action with
  | some .concludeApplyNoEffect | some .compensateApply => outcome = .indeterminate
  | some .convergeApply => outcome = .running ∨ outcome = .indeterminate
  | none => outcome = .running

/-- `sagaFence` of `settleProviderMutationPreconditionFailure`. -/
def Saga.failsPrecondition (i : SagaRef) (leaseToken : String) (action : Option RecoveryAction)
    (timestamp : Instant) (r : Saga) : Bool :=
  r.named i && r.accepts leaseToken timestamp && r.providerHandle.isNone &&
    definitiveOutcome action r.providerOutcome && (action.isNone || r.accepted.isNone) &&
    r.executionStartedAt.isSome

/-- The batch of `settleProviderMutationPreconditionFailure`: where its guard row is inserted,
the effect is cancelled and the saga deleted. -/
def settleProviderMutationPreconditionFailure (i : SagaRef) (leaseToken : String)
    (action : Option RecoveryAction) (timestamp : Instant) (t : Tables) : Option (Bool × Tables) :=
  let p := fun r : Saga => r.failsPrecondition i leaseToken action timestamp &&
    t.attests i.tenantId i.resourceUid Attestation.isOpen &&
    t.hasEffect i.tenantId i.resourceUid i.operationId (fun e =>
      decide (e.effectKind = r.operationKind ∧ e.phase = .planned ∧ e.operationMode = .initial)) &&
    !t.hasEffect i.tenantId i.resourceUid i.operationId Effect.isTerminal
  match t.sagas.find? p with
  | none => some (false, t)
  | some r =>
    deleteSaga (Saga.failsPrecondition i leaseToken action timestamp)
      { t with effects := t.effects ++ [{ tenantId := i.tenantId, resourceUid := i.resourceUid,
                                          effectId := i.operationId, effectKind := r.operationKind,
                                          phase := .cancelled, operationMode := .initial }] }

/-- The Host operation a definitive failure ends: an immediate request, or a deferred
operation under its lease. -/
inductive HostOperation where
  | immediate
  | deferred (operation : Operation) (leaseToken terminalJson : String)

/-- `DefinitiveProviderMutationFailureCommit`. -/
structure DefinitiveFailure where
  saga : SagaRecord
  providerLeaseToken : String
  claimOwner : Owner
  create : Bool
  recoveryAction : Option RecoveryAction
  /-- The selection and the dependencies of a compensation. -/
  compensation : Option (String × DependencySet)
  hostOperation : HostOperation

namespace DefinitiveFailure

variable (c : DefinitiveFailure)

def ref : SagaRef :=
  { tenantId := c.saga.target.tenantId, operationId := c.saga.operationId,
    resourceUid := c.saga.resourceUid }

/-- `assertDefinitiveProviderMutationFailure`. -/
def isWellFormed : Bool :=
  decide (c.saga.operationKind = .apply) &&
    (c.recoveryAction.isNone || (c.create && c.saga.accepted.isNone)) &&
    decide ((c.recoveryAction = some .compensateApply) ↔ c.compensation.isSome = true) &&
    (c.compensation.all fun s => decide (s.2.operationId = c.saga.operationId)) &&
    decide (c.create = c.saga.accepted.isNone) &&
    match c.hostOperation with
    | .immediate => c.compensation.isNone && decide (c.claimOwner = .operation c.saga.operationId)
    | .deferred o leaseToken _ =>
      decide (o.id = c.saga.operationId ∧ o.operation = .apply ∧
        o.fingerprint = c.saga.fingerprint ∧ o.resourceUid = c.saga.resourceUid ∧
        o.target = c.saga.target ∧ o.accepted = c.saga.accepted ∧ c.claimOwner = .lease leaseToken)

/-- The saga clause of `definitiveProviderFailureInitialFence`. -/
def fencesSaga (timestamp : Instant) (r : Saga) : Bool :=
  decide (r.record = c.saga ∧ r.operationKind = .apply) &&
    r.accepts c.providerLeaseToken timestamp && r.providerHandle.isNone &&
    definitiveOutcome c.recoveryAction r.providerOutcome && r.executionStartedAt.isSome &&
    c.compensation.all fun s =>
      decide (r.selectionJson = some s.1 ∧ r.importSelection = none ∧
        r.selectionVerifiedLeaseToken = r.lease.map Lease.token)

/-- Its clause on the Host operation. -/
def fencesHost (timestamp : Instant) (t : Tables) : Bool :=
  match c.hostOperation with
  | .immediate => !t.operations.any fun o => decide (o.id = c.saga.operationId)
  | .deferred operation leaseToken _ =>
    t.operations.any fun o =>
      decide (o.id = operation.id ∧ o.principalId = operation.principalId ∧ o.operation = .apply ∧
        o.phase = .committing ∧ o.fingerprint = operation.fingerprint ∧
        o.replayKey = operation.replayKey ∧ o.resourceUid = operation.resourceUid ∧
        o.target = operation.target ∧ o.targetFormRef = operation.targetFormRef ∧
        o.accepted = operation.accepted ∧ o.committedUid = none) &&
        o.lease.any fun l => l.isHeldBy leaseToken timestamp

/-- The Resource is still the one the saga was accepted on. -/
def fencesResource (elsewhere : Bool) (t : Tables) : Bool :=
  match c.saga.accepted with
  | none =>
    (t.resourceAt c.saga.target).isNone &&
      match c.compensation with
      | some _ => !t.hasUid c.saga.target.tenantId c.saga.resourceUid
      | none => isUncommitted c.saga.target.tenantId c.saga.resourceUid c.saga.operationId elsewhere t
  | some accepted =>
    (t.resourceAt c.saga.target).any fun r =>
      decide (r.uid = accepted.uid ∧ r.generation = accepted.generation ∧
        r.revision = accepted.revision)

/-- Its clause on the attempt: planned and dispatched, and not concluded. -/
def fencesAttempt (t : Tables) : Bool :=
  let has := t.hasEffect c.saga.target.tenantId c.saga.resourceUid c.saga.operationId
  (t.attests c.saga.target.tenantId c.saga.resourceUid fun a =>
      decide (a.address = c.saga.target ∧ a.state = .live) &&
        match c.hostOperation with
        | .immediate => true
        | .deferred o _ _ => decide (a.formRef = o.targetFormRef)) &&
    has (fun e => decide (e.effectKind = .apply ∧ e.phase = .planned ∧ e.operationMode = .initial)) &&
    has (fun e => decide (e.effectKind = .apply ∧ e.phase = .dispatched ∧
      e.operationMode = .initial)) &&
    !has Effect.isTerminal

/-- `definitiveProviderFailureInitialFence`; `elsewhere` are its clauses on deployments and on
the wallet. -/
def initialFence (D : Digests) (elsewhere : Bool) (timestamp : Instant) (t : Tables) : Bool :=
  t.sagas.any (c.fencesSaga timestamp) && elsewhere &&
    !(t.settled.any fun o => decide (o.id = c.saga.operationId)) &&
    c.fencesHost timestamp t && c.fencesResource elsewhere t && c.fencesAttempt t &&
    c.compensation.all fun s =>
      t.ownsDependencies D (.operation c.saga.operationId) c.saga.target.tenantId
        c.saga.resourceUid s.2 (fun d => d.holds timestamp) (fun d => decide (d.holder = privateHolder))

/-- The claims a definitive failure gives up: the reserved ones of the attempt. -/
def givesUp (d : Claim) : Bool :=
  decide (d.tenantId = c.saga.target.tenantId ∧ d.holderUid = c.saga.resourceUid) && d.isReserved &&
    if d.isDependency then decide (d.owner = .operation c.saga.operationId)
    else c.create || decide (d.owner = c.claimOwner)

/-- The claim clause of `definitiveProviderFailureCommittedFence`. -/
def claimsAreReleased (t : Tables) : Bool :=
  !t.claims.any fun d =>
    if c.create then
      decide (d.tenantId = c.saga.target.tenantId ∧ d.holderUid = c.saga.resourceUid)
    else c.givesUp d

/-- The deferred operation fails in the same batch. -/
def failOperation (timestamp : Instant) (operations : List Operation) : List Operation :=
  match c.hostOperation with
  | .immediate => operations
  | .deferred operation leaseToken terminalJson =>
    Table.update
      (fun o => decide (o.id = operation.id ∧ o.target.tenantId = operation.target.tenantId ∧
        o.principalId = operation.principalId ∧ o.phase = .committing) &&
        o.lease.any fun l => l.isHeldBy leaseToken timestamp)
      (fun o => { o with
        phase := .failed terminalJson
        committedUid := none
        lease := none
        expiresAt := timestamp + operationTtl })
      operations

end DefinitiveFailure

/-- Its statements on the effects, the attestation and the claims: the attempt is cancelled, a
compensated incarnation with it, and what it reserved goes. -/
def DefinitiveFailure.conclude (c : DefinitiveFailure) (t : Tables) : Tables :=
  let compensated := fun a : Attestation =>
    decide (a.tenantUid = (c.saga.target.tenantId, c.saga.resourceUid) ∧ a.state = .live) &&
      c.compensation.isSome
  { t with
    effects := t.effects ++ [{ tenantId := c.saga.target.tenantId,
                               resourceUid := c.saga.resourceUid, effectId := c.saga.operationId,
                               effectKind := .apply, phase := .cancelled,
                               operationMode := .initial }]
    attestations :=
      Table.update compensated (fun a => { a with state := .cancelled }) t.attestations
    claims := Table.delete c.givesUp t.claims }

/-- Its statements on the operation, in both tables. -/
def DefinitiveFailure.settle (c : DefinitiveFailure) (timestamp : Instant) (t : Tables) : Tables :=
  { t with
    operations := c.failOperation timestamp t.operations
    settled := t.settled ++ [{ id := c.saga.operationId, tenantId := c.saga.target.tenantId,
                               succeeded := false, resource := none,
                               expiresAt := timestamp + operationTtl }] }

/-- The batch of `commitDefinitiveProviderMutationFailure`. -/
def commitDefinitiveProviderMutationFailure (D : Digests) (c : DefinitiveFailure) (elsewhere : Bool)
    (timestamp : Instant) (t : Tables) : Option (Bool × Tables) :=
  if !(c.isWellFormed && c.initialFence D elsewhere timestamp t) then none
  else
    let released := if c.create && c.compensation.isNone then
        uncommittedResourceIncarnationRelease c.saga.target.tenantId c.saga.resourceUid
          c.saga.operationId elsewhere (c.conclude t)
      else some (c.conclude t)
    released.bind fun t =>
      (deleteSaga (fun r => r.named c.ref && r.accepts c.providerLeaseToken timestamp &&
          r.providerHandle.isNone && definitiveOutcome c.recoveryAction r.providerOutcome &&
          r.executionStartedAt.isSome) (c.settle timestamp t)).bind fun (deleted, t) =>
        if c.claimsAreReleased t then some (deleted, t) else none

end Takoserver.V1
