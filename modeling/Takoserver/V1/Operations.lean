import Takoserver.V1.Commits

/-!
# Deferred operations

The statements on `tf_deferred_operations_selection_v1` that `src/takoform/operations.ts`
drives: an acceptance, the polls that arm the commit and acquire its lease, a
cancellation, the settlement of a failure, the hold for a provider repair, and
the removal of what has ended.  The commit itself is `commitDeferredMutation`.
-/

namespace Takoserver.V1

/-- `PROVIDER_REPAIR_HOLD_TTL_MILLISECONDS`. -/
def providerRepairHoldTtl : ℕ := 30 * 24 * 60 * 60000

/-- `terminalPhase`. -/
def Phase.isTerminal : Phase → Bool
  | .pending | .committing => false
  | .succeeded _ | .failed _ | .cancelled _ => true

/-- Run one `UPDATE` on the deferred operations; the answer is `changes === 1`. -/
def updateOperation (p : Operation → Bool) (f : Operation → Operation) (t : Tables) :
    Bool × Tables :=
  (decide (t.operations.countP p = 1), { t with operations := Table.update p f t.operations })

/-! ### Acceptance -/

/-- `DeferredOperationRecord`: the operation a request asks for. -/
structure OperationRecord where
  id : String
  principalId : String
  operation : OperationKind
  fingerprint : String
  replayKey : String
  target : Address
  targetFormRef : FormRef
  accepted : Option Accepted
  resourceUid : String
  pollsRemaining : ℕ

namespace OperationRecord

/-- The row the record is inserted as. -/
def row (record : OperationRecord) (serial : ℕ) : Operation :=
  { serial, id := record.id, principalId := record.principalId, operation := record.operation,
    fingerprint := record.fingerprint, replayKey := record.replayKey, target := record.target,
    targetFormRef := record.targetFormRef, accepted := record.accepted,
    resourceUid := record.resourceUid, pollsRemaining := record.pollsRemaining,
    expiresAt := repairHorizon }

/-- The saga of the same command. -/
def saga (record : OperationRecord) : SagaRecord :=
  { operationId := record.id, operationKind := record.operation, replayKey := record.replayKey,
    fingerprint := record.fingerprint, resourceUid := record.resourceUid, target := record.target,
    accepted := record.accepted, authorityHeadDigest := none }

/-- The trigger `pair_exact`: a saga of the same id describes the same command. -/
def pairIsExact (record : OperationRecord) (t : Tables) : Bool :=
  !(t.sagas.any fun r => decide (r.operationId = record.id)) ||
    t.sagas.any fun r =>
      decide (r.operationId = record.id ∧ r.operationKind = record.operation ∧
        r.fingerprint = record.fingerprint ∧ r.resourceUid = record.resourceUid ∧
        r.target = record.target ∧ r.accepted = record.accepted)

end OperationRecord

/-- The first statement of `acceptDeferredOperation`: terminal rows whose time is over go.
`swept` are those within its limit. -/
def sweepDeferredOperations (swept : Operation → Bool) (timestamp : Instant) (t : Tables) : Tables :=
  let p := fun o : Operation => o.phase.isTerminal && decide (o.expiresAt ≤ timestamp) && swept o
  { t with operations := Table.delete p t.operations }

/-- `INSERT OR IGNORE` of `acceptDeferredOperation`.  `legacy` is the clause of its fence on the
tables of the released generation, and `authorized` its authority fence. -/
def acceptDeferredOperation (record : OperationRecord) (legacy authorized : Bool) (t : Tables) :
    Option Tables :=
  if legacy || openAttempt record.saga t || !authorized then some t
  else if !record.pairIsExact t then none
  else if t.operations.any fun o =>
      decide (o.id = record.id ∨ o.replayKey = record.replayKey) then some t
  else
    some { t with
      operations := t.operations ++ [record.row t.operationSerial]
      operationSerial := t.operationSerial + 1 }

/-- `retireDeferredOperation`. -/
def retireDeferredOperation (id replayKey : String) (t : Tables) : Tables :=
  let p := fun o : Operation => decide (o.id = id ∧ o.replayKey = replayKey) && o.phase.isTerminal
  { t with operations := Table.delete p t.operations }

/-! ### Polls -/

/-- `tenant_id`, `principal_id` and `id`: how a poll names its operation. -/
structure OperationRef where
  tenantId : String
  principalId : String
  id : String

/-- `tenant_id = ? AND principal_id = ? AND id = ?`. -/
def Operation.named (o : Operation) (i : OperationRef) : Bool :=
  o.target.tenantId = i.tenantId ∧ o.principalId = i.principalId ∧ o.id = i.id

/-- The first statement of `advanceDeferredOperation`. -/
def decrementPolls (i : OperationRef) (t : Tables) : Bool × Tables :=
  updateOperation
    (fun o => o.named i && decide (o.phase = .pending ∧ 1 < o.pollsRemaining))
    (fun o => { o with pollsRemaining := o.pollsRemaining - 1 }) t

/-- Its second statement: from here on the operation cannot be cancelled. -/
def armDeferredOperation (i : OperationRef) (t : Tables) : Bool × Tables :=
  updateOperation
    (fun o => o.named i && decide (o.phase = .pending ∧ o.pollsRemaining ≤ 1))
    (fun o => { o with phase := .committing, pollsRemaining := 0, lease := none }) t

/-- Its third statement. -/
def acquireDeferredOperation (i : OperationRef) (lease : Lease) (timestamp : Instant) (t : Tables) :
    Bool × Tables :=
  updateOperation
    (fun o => o.named i && decide (o.phase = .committing) && leaseIsFree o.lease timestamp)
    (fun o => { o with lease := some lease }) t

/-! ### Ends -/

/-- The update of `cancelDeferredOperation`. -/
def cancelDeferredOperation (i : OperationRef) (terminalJson : String) (timestamp : Instant)
    (t : Tables) : Bool × Tables :=
  updateOperation
    (fun o => o.named i && decide (o.phase = .pending))
    (fun o => { o with
      phase := .cancelled terminalJson, lease := none, expiresAt := timestamp + operationTtl }) t

/-- The update of `settleDeferredFailure`. -/
def settleDeferredFailure (operation : Operation) (leaseToken terminalJson : String)
    (timestamp : Instant) (t : Tables) : Bool × Tables :=
  updateOperation (operation.isLeased leaseToken)
    (fun o => { o with
      phase := .failed terminalJson, lease := none, expiresAt := timestamp + operationTtl }) t

/-- `holdDeferredProviderRepair`: the lease is given up, and the row kept; a delete only for a
time from its acceptance. -/
def holdDeferredProviderRepair (operation : Operation) (leaseToken : String) (createdAt : Instant)
    (t : Tables) : Bool × Tables :=
  updateOperation (operation.isLeased leaseToken)
    (fun o => { o with
      lease := none
      expiresAt := if operation.operation = .delete then createdAt + providerRepairHoldTtl
        else repairHorizon }) t

end Takoserver.V1
