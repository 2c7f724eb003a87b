import Takoserver.Queue.Custody

/-!
# Batches and their executions

The receipts of a delivered batch and the execution it is sent under: registration and
settlement of `src/queue-custody.ts`, reservation, cancellation, send authorization and
retirement of `src/takoform-v2/worker-queue-delivery.ts`, and what
`src/takoform-v2/worker-queue-consumer-backend.ts` does with both while a consumer is updated
or deleted.  The triggers of `migrations/0082` and `0083` are part of the statements they
guard.

What a statement asks of the Resource and Operation tables is an argument of it.
-/

namespace Takoserver.Queue

/-! ### Receipts -/

/-- The receipt's message stands under the lease it was claimed with, unexpired. -/
def BatchClaim.live (b : BatchClaim) (t : Tables) : Bool :=
  (t.messages.any fun m =>
    decide (m.messageId = b.messageId) && m.leasedUnder b.leaseToken b.toIdentity &&
      decide (m.deliveries = b.attempts) &&
      m.lease.any fun l => decide (t.now < l.expiresAt ∧ l.policy = b.policy)) &&
  t.inCustody b.toIdentity [.active, .retiring]

/-- `queue_v2_batch_register_guard`. -/
def BatchClaim.registrable (b : BatchClaim) (t : Tables) : Bool :=
  !(t.receipts.any fun r =>
    decide ((r.batchId = b.batchId ∧ r.messageId = b.messageId) ∨
      (r.queueId = b.queueId ∧ r.messageId = b.messageId ∧ r.leaseToken = b.leaseToken) ∨
      (r.batchId = b.batchId ∧ (r.toIdentity ≠ b.toIdentity ∨ r.leaseToken ≠ b.leaseToken)))) &&
  b.live t

/-- `queue_v2_batch_execution_receipt_guard`. -/
def BatchClaim.executionAllows (b : BatchClaim) (t : Tables) : Bool :=
  (b.executionReservationToken.isNone &&
    !t.executions.any fun e => decide (e.batchId = b.batchId)) ||
  t.executions.any fun e => decide (e.batchId = b.batchId ∧ e.state = .reserved ∧
    b.executionReservationToken = some e.reservationToken ∧ e.leaseToken = some b.leaseToken ∧
    e.toIdentity = b.toIdentity ∧ t.now < e.reservationUntil)

/-- `INSERT INTO queue_v2_batch_settlements`. -/
def registerStatement (b : BatchClaim) : Statement Tables := fun t =>
  if b.registrable t && b.executionAllows t then
    some ({ t with receipts := t.receipts ++ [{ toBatchClaim := b, state := .pending }] }, 1)
  else none

/-- The claim as a row of its batch. -/
def ClaimedMessage.batchClaim (c : ClaimedMessage) (batchId : String)
    (reservationToken : Option String) : BatchClaim where
  toIdentity := c.toIdentity
  batchId := batchId
  leaseToken := c.leaseToken
  messageId := c.messageId
  attempts := c.attempts
  policy := c.policy
  executionReservationToken := reservationToken

/-- The `UPDATE` that registers an execution, with `queue_v2_batch_execution_register_guard`. -/
def registerExecutionStatement (identity : Identity) (r : ReservationRef) (count : ℕ) :
    Statement Tables := fun t =>
  let p (e : Execution) : Bool := e.isOf r identity
  let registrable (e : Execution) : Bool :=
    decide (e.state = .reserved ∧ t.now < e.reservationUntil ∧ e.leaseToken.isSome ∧
      count = t.receipts.countP fun x => decide (x.batchId = e.batchId ∧
        x.toIdentity = e.toIdentity ∧ e.leaseToken = some x.leaseToken))
  if t.executions.any fun e => p e && !registrable e then none
  else
    some ({ t with
      executions := Table.update p
        (fun e => { e with state := .registered, messageCount := some count }) t.executions },
      t.executions.countP p)

/-- `registerSettlementBatch`'s batch. -/
def registerStatements (batchId : String) (messages : List ClaimedMessage)
    (reservationToken : Option String) : Option (List (Statement Tables)) :=
  match messages with
  | [] => none
  | first :: _ =>
    if messages.length ≤ maxBatchMessages ∧ messages.all ClaimedMessage.valid ∧
        (messages.map ClaimedMessage.messageId).Nodup ∧ messages.all fun m =>
          decide (m.toIdentity = first.toIdentity ∧ m.leaseToken = first.leaseToken) then
      some (messages.map (fun m => registerStatement (m.batchClaim batchId reservationToken)) ++
        match reservationToken with
        | none => []
        | some token =>
          [registerExecutionStatement first.toIdentity ⟨batchId, token⟩ messages.length])
    else none

/-! ### Settling one message of a batch -/

/-- `sameSettlementClaim`; the reservation token is not part of a claimed message. -/
def Receipt.sameClaim (r : Receipt) (c : ClaimedMessage) : Bool :=
  decide (r.toIdentity = c.toIdentity ∧ r.leaseToken = c.leaseToken ∧
    r.messageId = c.messageId ∧ r.attempts = c.attempts ∧ r.policy = c.policy)

/-- A retry that was the last attempt. -/
def BatchClaim.exhausted (b : BatchClaim) : Bool := decide (1 + b.policy.maxRetries ≤ b.attempts)

/-- The `CHECK` on the columns of a settlement, and the first half of
`queue_v2_batch_transition_guard`. -/
def BatchClaim.admits (b : BatchClaim) (s : Settlement) (t : Tables) : Bool :=
  (match s.outcome with
    | .ack => s.delaySeconds.isNone && s.deadLetterMessageId.isNone
    | .retry => s.delaySeconds.isSome) &&
  (if s.outcome = .retry ∧ b.exhausted ∧ b.policy.deadLetterQueue.isSome then
    s.deadLetterMessageId.isSome
  else s.deadLetterMessageId.isNone) &&
  b.live t

/-- `queue_v2_batch_execution_settlement_guard`. -/
def BatchClaim.executionSettles (b : BatchClaim) (t : Tables) : Bool :=
  (!t.executions.any fun e => decide (e.batchId = b.batchId)) ||
  t.executions.any fun e => decide (e.batchId = b.batchId ∧
    b.executionReservationToken = some e.reservationToken ∧ e.toIdentity = b.toIdentity ∧
    e.state ∈ [.sendAuthorized, .retired])

/-- `UPDATE … SET state = 'settling'`, with the triggers that guard it. -/
def beginSettlementStatement (batchId messageId : String) (s : Settlement) : Statement Tables :=
  fun t =>
    match Table.find Receipt.key t.receipts (batchId, messageId) with
    | none => some (t, 0)
    | some r =>
      if r.state = .pending ∧ r.admits s t ∧ r.executionSettles t then
        some ({ t with
          receipts := Table.put Receipt.key { r with state := .settling s } t.receipts }, 1)
      else none

/-- The second half of `queue_v2_batch_transition_guard`: the message is as the settlement
says. -/
def BatchClaim.effected (b : BatchClaim) (s : Settlement) (t : Tables) : Bool :=
  if s.outcome = .ack ∨ b.exhausted then
    (t.message b.queueId b.messageId).isNone &&
      s.deadLetterMessageId.all fun id =>
        b.policy.deadLetterQueue.any fun q =>
          (t.message q.queueId id).isSome &&
            t.notices.any fun n => decide (n = ⟨b.toIdentity, q.queueId, id⟩)
  else
    (t.message b.queueId b.messageId).any fun m => decide (m.lease = none ∧
      m.deliveries = b.attempts ∧ m.visibleAt = s.settledAt + s.delaySeconds.getD 0 * 1000)

/-- `UPDATE … SET state = 'settled'`, with the triggers that guard it. -/
def endSettlementStatement (batchId messageId : String) : Statement Tables := fun t =>
  match Table.find Receipt.key t.receipts (batchId, messageId) with
  | none => some (t, 0)
  | some r =>
    match r.state with
    | .settling s =>
      if r.effected s t then
        some ({ t with
          receipts := Table.put Receipt.key { r with state := .settled s } t.receipts }, 1)
      else none
    | _ => none

/-- The statement on the message, by the decision. -/
def effectStatement (c : ClaimedMessage) (d : Decision) (millis : Instant) (deadLetterId : String) :
    Statement Tables :=
  match d.outcome with
  | .ack => ackStatement c
  | .retry =>
    if 1 + c.policy.maxRetries ≤ c.attempts then terminalLease c.terminal millis deadLetterId
    else retryStatement c (millis + d.delay c * 1000)

/-- What a call of `settleBatchMessage` wants recorded. -/
def settlementOf (c : ClaimedMessage) (d : Decision) (token : String) (millis : Instant)
    (deadLetterId : String) : Settlement where
  outcome := d.outcome
  delaySeconds := match d.outcome with
    | .ack => none
    | .retry => some (d.delay c)
  token := token
  settledAt := millis
  deadLetterMessageId :=
    if d.outcome = .retry ∧ 1 + c.policy.maxRetries ≤ c.attempts ∧
        c.policy.deadLetterQueue.isSome then some deadLetterId
    else none

/-- The batch of `settleBatchMessage`, as one statement with the changes of its last. -/
def settleBatch (batchId : String) (c : ClaimedMessage) (d : Decision) (token : String)
    (millis : Instant) (deadLetterId : String) : Statement Tables :=
  (beginSettlementStatement batchId c.messageId (settlementOf c d token millis deadLetterId)).andThen
    ((effectStatement c d millis deadLetterId).andThen
      (endSettlementStatement batchId c.messageId))

/-! ### Executions -/

/-- `INSERT INTO queue_v2_batch_executions`, with `queue_v2_batch_execution_reserve_guard`;
`servable` is what it asks of the Resources and Operations. -/
def reserveStatement (r : Reservation) (servable : Bool) : Statement Tables := fun t =>
  if (t.executions.any fun e => decide (e.batchId = r.batchId)) ||
      !servable || !t.inCustody r.toIdentity [.active] ||
      decide (r.maxConcurrency ≤ t.executions.countP fun e => decide (e.consumerId = r.consumerId ∧
        e.state ∈ [.reserved, .registered, .sendAuthorized])) then none
  else
    some ({ t with
      executions := t.executions ++ [
        { toReservation := r
          reservedAt := t.now
          reservationUntil := t.now + 120000
          leaseToken := none
          state := .reserved
          messageCount := none
          selected := none
          sendAuthorizedAt := none
          retirementReceiptDigest := none }] }, 1)

/-- An `UPDATE` that refuses executions that were not sent. -/
def refuseStatement (p : Tables → Execution → Bool) : Statement Tables := fun t =>
  let q (e : Execution) : Bool := p t e && decide (e.state ∈ [.reserved, .registered])
  some ({ t with
    executions := Table.update q (fun e => { e with state := .preEffectRefused }) t.executions },
    t.executions.countP q)

/-- `claimRegisteredBatch`: the consumer's executions whose reservation is over. -/
def refuseExpiredStatement (consumerUid : String) : Statement Tables :=
  refuseStatement fun t e => decide (e.consumerId = consumerUid ∧ e.reservationUntil ≤ t.now)

/-- The refund of `cancelV2QueueBatchBeforeSend`. -/
def refundCancelledStatement (r : ReservationRef) : Statement Tables := fun t =>
  refundMessages
    (fun t m => t.executions.any fun e => e.binds m && decide (e.batchId = r.batchId ∧
      e.reservationToken = r.reservationToken ∧ e.state = .preEffectRefused)) t.now t

/-- `cancelV2QueueBatchBeforeSend`. -/
def cancelStatements (r : ReservationRef) : List (Statement Tables) :=
  [refuseStatement fun _ e =>
    decide (e.batchId = r.batchId ∧ e.reservationToken = r.reservationToken),
   refundCancelledStatement r]

/-- `V2QueueBatchExecutionIdentity`. -/
structure ExecutionIdentity extends Identity where
  batchId : String
  reservationToken : String
  workerUid : String
  servingSourceOperationId : String
  selected : SelectedVersion

/-- `EXECUTION_SCOPE`. -/
def ExecutionIdentity.scopes (x : ExecutionIdentity) (e : Execution) : Bool :=
  decide (e.batchId = x.batchId ∧ e.reservationToken = x.reservationToken ∧
    e.toIdentity = x.toIdentity ∧ e.workerUid = x.workerUid ∧
    e.servingSourceOperationId = x.servingSourceOperationId)

/-- `authorizeV2QueueBatchSend`, with `queue_v2_batch_execution_send_guard`; `servable` is what
it asks of the Resources and Operations. -/
def authorizeStatement (x : ExecutionIdentity) (servable : Bool) : Statement Tables := fun t =>
  let p (e : Execution) : Bool := x.scopes e && decide (e.state = .registered)
  if t.executions.any fun e => p e && (decide (e.reservationUntil ≤ t.now) || !servable ||
      !t.inCustody e.toIdentity [.active]) then none
  else
    some ({ t with
      executions := Table.update p
        (fun e => { e with
          state := .sendAuthorized
          selected := some x.selected
          sendAuthorizedAt := some t.now }) t.executions },
      t.executions.countP p)

/-- `confirmV2QueueBatchRetirement`; `drained` is what it asks of the external SQLite drain. -/
def retireStatement (x : ExecutionIdentity) (digest : String) (drained : Bool) : Statement Tables :=
  fun t =>
    let p (e : Execution) : Bool := x.scopes e &&
      decide (e.state = .sendAuthorized ∧ e.selected = some x.selected) && drained
    if t.executions.any p && t.executions.any fun e =>
        decide (e.retirementReceiptDigest = some digest) then none
    else
      some ({ t with
        executions := Table.update p
          (fun e => { e with state := .retired, retirementReceiptDigest := some digest })
          t.executions },
        t.executions.countP p)

/-- A receipt of the execution is pending. -/
def Tables.pendingFor (t : Tables) (e : Execution) (m : Message) : Bool :=
  t.receipts.any fun r => decide (r.batchId = e.batchId ∧ r.queueId = m.queueId ∧
    r.messageId = m.messageId ∧ r.toIdentity = e.toIdentity ∧ e.leaseToken = some r.leaseToken ∧
    r.state = .pending)

/-- Every pending receipt of the execution has its message under its lease, unexpired. -/
def Tables.allPendingLive (t : Tables) (e : Execution) : Bool :=
  decide (e.messageCount = some (t.receipts.countP fun r => decide (r.batchId = e.batchId))) &&
    t.receipts.all fun r => decide (r.batchId = e.batchId → r.state = .pending →
      r.toIdentity = e.toIdentity ∧ e.leaseToken = some r.leaseToken) &&
      (decide (r.batchId ≠ e.batchId ∨ r.state ≠ .pending) ||
        t.messages.any fun m => decide (m.messageId = r.messageId) &&
          m.leasedUnder r.leaseToken r.toIdentity && m.lease.any fun l => decide (t.now < l.expiresAt))

/-- `renewRegisteredV2BatchLeases`. -/
def renewStatement (x : ExecutionIdentity) : Statement Tables := fun t =>
  updateMessages
    (fun t m => (m.lease.any fun l => decide (t.now < l.expiresAt)) &&
      t.executions.any fun e => x.scopes e && e.binds m &&
        decide (e.state = .sendAuthorized ∧ e.selected = some x.selected) &&
        t.allPendingLive e && t.pendingFor e m)
    (fun m => { m with
      lease := m.lease.map fun l => { l with expiresAt := max l.expiresAt (t.now + maxLeaseMillis) } })
    t

/-! ### A consumer's update and deletion -/

/-- The first `UPDATE` of `run`: what was not sent is refused.  `owned` is
`V2_QUEUE_CLAIM_SQL`, here and below. -/
def refuseUnsentStatement (consumerUid : String) (owned : Bool) : Statement Tables :=
  refuseStatement fun _ e => decide (e.consumerId = consumerUid) && owned

/-- The messages that `run` refunds: a page of those under the consumer's refused executions. -/
def Tables.refundable (t : Tables) (consumerUid : String) : List (String × String) :=
  ((t.messages.filter fun m => t.executions.any fun e => e.binds m &&
    decide (e.consumerId = consumerUid ∧ e.state = .preEffectRefused)).take 64).map Message.key

/-- The refund of `run`. -/
def refundUnsentStatement (consumerUid : String) (owned : Bool) : Statement Tables := fun t =>
  refundMessages (fun t m => decide (m.key ∈ t.refundable consumerUid) && owned) t.now t

/-- No execution of the consumer is open. -/
def Tables.noneOpen (t : Tables) (consumerUid : String) : Bool :=
  !t.executions.any fun e => decide (e.consumerId = consumerUid ∧
    e.state ∈ [.reserved, .registered, .sendAuthorized])

/-- No message of the queue is leased. -/
def Tables.noneLeased (t : Tables) (queueId : String) : Bool :=
  !t.messages.any fun m => decide (m.queueId = queueId) && m.lease.isSome

/-- `run` of a create, with the custody row it has read: the first generation, or the one after
a tombstone. -/
def attachStatement (queueId consumerUid : String) (policy : RetryPolicy) (owned : Bool)
    (row : Option Custody) : Statement Tables :=
  match row with
  | none =>
    insertCustody (fun t => owned && (t.custodyOf queueId).isNone && t.noneLeased queueId)
      { queueId, consumerId := consumerUid, generation := 1, policy, state := .active
        retirementStartedAt := none }
  | some row =>
    updateCustody
      (fun t c => decide (c.queueId = queueId ∧ c.consumerId = row.consumerId ∧
        c.generation = row.generation ∧ c.state = .tombstone) && t.noneLeased queueId &&
        t.noneOpen consumerUid && owned)
      (Custody.replaced ⟨⟨queueId, consumerUid, row.generation + 1⟩, policy⟩)

/-- `run` of an update or a delete: an active row begins to retire. -/
def beginRetiringStatement (identity : Identity) (millis : Instant) (owned : Bool) :
    Statement Tables :=
  updateCustody (fun _ c => decide (c.toIdentity = identity ∧ c.state = .active) && owned)
    fun c => { c with state := .retiring, retirementStartedAt := some millis }

/-- `run` of an update or a delete: the retired row is replaced, or ends. -/
def replaceStatement (identity : Identity) (consumerUid : String) (policy : Option RetryPolicy)
    (owned : Bool) : Statement Tables :=
  updateCustody
    (fun t c => decide (c.toIdentity = identity ∧ c.state = .retiring) && t.drained identity &&
      t.noneOpen consumerUid && owned)
    fun c =>
      match policy with
      | some policy =>
        c.replaced ⟨⟨identity.queueId, consumerUid, identity.generation + 1⟩, policy⟩
      | none => { c with state := .tombstone, retirementStartedAt := none }

end Takoserver.Queue
