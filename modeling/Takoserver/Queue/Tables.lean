import Takoserver.Lib.Sql
import Takoserver.Lib.Table

/-!
# The tables of Queue custody

The rows that `src/queue-custody.ts` and `src/takoform-v2/worker-queue-delivery.ts` keep:
messages with their leases (`migrations/0040`, `0053`), the custody row of each queue's
consumer, transfer notices (`0055`), batch settlement receipts (`0082`) and batch executions
(`0083`, `0090`).  Instants are numbers of milliseconds; `Tables.now` is what
`strftime('now')` reads.

Some columns are ghosts that no statement reads: each message carries the `origin` it was
admitted as, which a dead-letter copy takes over, and the tables log what was admitted,
copied, deleted and refunded.
-/

namespace Takoserver.Queue

/-- Milliseconds. -/
abbrev Instant := ℕ

/-- `QueueCustodyTarget`. -/
structure QueueTarget where
  queueId : String
  messageRetentionSeconds : ℕ
  deliveryDelaySeconds : ℕ
  deriving DecidableEq

/-- `QueueCustodyRetryPolicy`. -/
structure RetryPolicy where
  maxRetries : ℕ
  retryDelaySeconds : ℕ
  deadLetterQueue : Option QueueTarget
  deriving DecidableEq

/-- What identifies one generation of a queue's consumer. -/
structure Identity where
  queueId : String
  consumerId : String
  generation : ℕ
  deriving DecidableEq

/-- `QueueCustodyConsumerGeneration`. -/
structure ConsumerGeneration extends Identity where
  policy : RetryPolicy

/-! ### Messages -/

/-- The lease columns of a message, set and cleared together. -/
structure Lease where
  token : String
  expiresAt : Instant
  consumerId : String
  generation : ℕ
  policy : RetryPolicy
  deriving DecidableEq

/-- `selfhost_queue_messages`. -/
structure Message where
  queueId : String
  messageId : String
  body : List UInt8
  enqueuedAt : Instant
  visibleAt : Instant
  expiresAt : Instant
  deliveries : ℕ
  lease : Option Lease
  /-- Ghost: which admitted message this is. -/
  origin : ℕ

/-- `PRIMARY KEY (queue_id, message_id)`. -/
def Message.key (m : Message) : String × String := (m.queueId, m.messageId)

/-- The message is leased under the token. -/
def Message.leasedUnder (m : Message) (token : String) (identity : Identity) : Bool :=
  decide (m.queueId = identity.queueId) &&
    m.lease.any fun l => decide (l.token = token ∧ l.consumerId = identity.consumerId ∧
      l.generation = identity.generation)

/-- The lease columns are cleared and the message is visible again at an instant. -/
def Message.unleased (visibleAt : Instant) (m : Message) : Message :=
  { m with visibleAt, lease := none }

/-- As `unleased`, and the delivery is uncounted. -/
def Message.refunded (visibleAt : Instant) (m : Message) : Message :=
  { m with visibleAt, lease := none, deliveries := m.deliveries - 1 }

/-! ### Custody and notices -/

/-- `state` of a custody. -/
inductive CustodyState where
  | active
  | retiring
  | tombstone
  deriving DecidableEq

/-- `queue_consumer_custody`. -/
structure Custody extends ConsumerGeneration where
  state : CustodyState
  retirementStartedAt : Option Instant

/-- `queue_custody_transfer_notices`. -/
structure Notice where
  source : Identity
  targetQueueId : String
  noticeToken : String
  deriving DecidableEq

/-- The primary key. -/
def Notice.key (n : Notice) : Identity × String := (n.source, n.targetQueueId)

/-! ### Batches -/

/-- What a consumer decides. -/
inductive Outcome where
  | ack
  | retry
  deriving DecidableEq

/-- The settlement columns of a receipt. -/
structure Settlement where
  outcome : Outcome
  delaySeconds : Option ℕ
  token : String
  settledAt : Instant
  deadLetterMessageId : Option String
  deriving DecidableEq

/-- A receipt has its settlement columns unless it is pending. -/
inductive ReceiptState where
  | pending
  | settling (settlement : Settlement)
  | settled (settlement : Settlement)
  deriving DecidableEq

/-- A message of a batch that was handed out. -/
structure BatchClaim extends Identity where
  batchId : String
  leaseToken : String
  messageId : String
  attempts : ℕ
  policy : RetryPolicy
  executionReservationToken : Option String

/-- `queue_v2_batch_settlements`. -/
structure Receipt extends BatchClaim where
  state : ReceiptState

/-- `PRIMARY KEY (batch_id, message_id)`. -/
def Receipt.key (r : Receipt) : String × String := (r.batchId, r.messageId)

/-- `state` of an execution. -/
inductive ExecutionState where
  | reserved
  | registered
  | sendAuthorized
  | preEffectRefused
  | retired
  deriving DecidableEq

/-- The Worker Version a batch is sent to. -/
structure SelectedVersion where
  workerVersionUid : String
  workerVersionGeneration : ℕ
  incarnationOperationId : String
  deriving DecidableEq

/-- What a reservation fixes for good. -/
structure Reservation extends Identity where
  batchId : String
  reservationToken : String
  workerUid : String
  consumerSpecJson : String
  servingSourceOperationId : String
  selectedVersionsJson : String
  principal : String
  space : String
  targetKey : String
  maxConcurrency : ℕ

/-- `queue_v2_batch_executions`. -/
structure Execution extends Reservation where
  reservedAt : Instant
  reservationUntil : Instant
  leaseToken : Option String
  state : ExecutionState
  messageCount : Option ℕ
  selected : Option SelectedVersion
  sendAuthorizedAt : Option Instant
  retirementReceiptDigest : Option String

/-- The execution has bound the lease of a message. -/
def Execution.binds (e : Execution) (m : Message) : Bool :=
  decide (e.queueId = m.queueId) && m.lease.any fun l =>
    decide (e.consumerId = l.consumerId ∧ e.generation = l.generation ∧
      e.leaseToken = some l.token)

/-! ### The tables -/

/-- Why a statement deletes a message: its lease is acknowledged, its retention is over at
an instant, or its attempts are exhausted. -/
inductive Reason where
  | ack (token : String) (identity : Identity)
  | expiry (millis : Instant)
  | exhaustion

/-- Ghost: a message as it was admitted. -/
structure Admitted where
  queueId : String
  body : List UInt8
  deriving DecidableEq

/-- The tables of the custody. -/
structure Tables where
  now : Instant := 0
  messages : List Message := []
  custody : List Custody := []
  notices : List Notice := []
  receipts : List Receipt := []
  executions : List Execution := []
  /-- Ghost: what was admitted; a message's origin is its place here. -/
  admitted : List Admitted := []
  /-- Ghost: the dead-letter copies, each with the message it copies. -/
  copied : List (Message × Message) := []
  /-- Ghost: the deleted messages, each as it was deleted. -/
  deleted : List (Message × Reason) := []
  /-- Ghost: the messages whose delivery was uncounted, each as it was before. -/
  refunds : List Message := []

namespace Tables

variable (t : Tables)

/-- The message of a queue. -/
def message (queueId messageId : String) : Option Message :=
  Table.find Message.key t.messages (queueId, messageId)

/-- The custody of a queue. -/
def custodyOf (queueId : String) : Option Custody :=
  t.custody.find? fun c => decide (c.queueId = queueId)

/-- `EXISTS (SELECT 1 FROM queue_consumer_custody WHERE … AND state IN (…))`. -/
def inCustody (identity : Identity) (states : List CustodyState) : Bool :=
  t.custody.any fun c => decide (c.toIdentity = identity ∧ c.state ∈ states)

/-- The execution that has bound the lease of a message. -/
def executionOf (m : Message) : Option Execution := t.executions.find? fun e => e.binds m

/-- The `NOT EXISTS` of `NO_SENT_V2_EXECUTION`. -/
def unsent (m : Message) : Bool :=
  !t.executions.any fun e => e.binds m && decide (e.state = .sendAuthorized)

/-- The clock that `strftime('now')` reads is set. -/
def setNow (now : Instant) (t : Tables) : Tables := { t with now }

end Tables

/-! ### Statements on messages -/

/-- `INSERT INTO selfhost_queue_messages`. -/
def insertMessage (m : Message) : Statement Tables := fun t =>
  if (t.message m.queueId m.messageId).isSome then none
  else some ({ t with messages := t.messages ++ [m] }, 1)

/-- `UPDATE selfhost_queue_messages SET … WHERE p`. -/
def updateMessages (p : Tables → Message → Bool) (f : Message → Message) : Statement Tables :=
  fun t => some ({ t with messages := Table.update (p t) f t.messages }, t.messages.countP (p t))

/-- The `UPDATE` that clears a lease and uncounts the delivery, where `p`. -/
def refundMessages (p : Tables → Message → Bool) (visibleAt : Instant) : Statement Tables :=
  fun t => some ({ t with
    messages := Table.update (p t) (Message.refunded visibleAt) t.messages
    refunds := t.refunds ++ t.messages.filter (p t) }, t.messages.countP (p t))

/-- `DELETE FROM selfhost_queue_messages WHERE p`. -/
def deleteMessages (why : Reason) (p : Tables → Message → Bool) : Statement Tables := fun t =>
  some ({ t with
    messages := Table.delete (p t) t.messages
    deleted := t.deleted ++ (t.messages.filter (p t)).map fun m => (m, why) },
    t.messages.countP (p t))

/-! ### Statements on custody and notices -/

/-- `UPDATE queue_consumer_custody SET … WHERE p`. -/
def updateCustody (p : Tables → Custody → Bool) (f : Custody → Custody) : Statement Tables :=
  fun t => some ({ t with custody := Table.update (p t) f t.custody }, t.custody.countP (p t))

/-- `INSERT INTO queue_consumer_custody … SELECT … WHERE p`. -/
def insertCustody (p : Tables → Bool) (c : Custody) : Statement Tables := fun t =>
  if p t then
    if (t.custodyOf c.queueId).isSome then none
    else some ({ t with custody := t.custody ++ [c] }, 1)
  else some (t, 0)

/-- `INSERT … ON CONFLICT DO UPDATE` of a notice. -/
def Tables.upsertNotice (t : Tables) (n : Notice) : Tables :=
  { t with
    notices :=
      if (Table.find Notice.key t.notices n.key).isSome then Table.put Notice.key n t.notices
      else t.notices ++ [n] }

/-- `DELETE FROM queue_custody_transfer_notices` of one exact notice. -/
def deleteNotice (n : Notice) : Statement Tables := fun t =>
  some ({ t with notices := Table.delete (fun m => decide (m = n)) t.notices },
    t.notices.countP fun m => decide (m = n))

end Takoserver.Queue
