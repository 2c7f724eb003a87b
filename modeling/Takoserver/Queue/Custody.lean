import Takoserver.Queue.Tables

/-!
# Queue custody

The statements that the calls of `src/queue-custody.ts` commit, each call's computed from the
rows it has read: admission, claim with the maintenance it makes first, release, settlement,
sweep, and the two-phase retirement of a consumer generation.

A read is a function of the tables it ran on.  What a batch commits on may be any later
tables; every statement therefore repeats what its row must still satisfy.
-/

namespace Takoserver.Queue

/-- The limits of a claim. -/
def maxBatchMessages : ℕ := 100
def maxReapMessages : ℕ := 50
def maxLeaseMillis : ℕ := 120000

/-- `Number.MAX_SAFE_INTEGER`. -/
def maxSafeGeneration : ℕ := 9007199254740991

/-- A time that stays a safe integer. -/
def safeFutureMillis (base delta : ℕ) : ℕ := min (base + delta) maxSafeGeneration

/-! ### Arguments -/

/-- The bounds `queueTarget` checks. -/
def QueueTarget.valid (q : QueueTarget) : Bool :=
  decide (60 ≤ q.messageRetentionSeconds ∧ q.messageRetentionSeconds ≤ 1209600 ∧
    q.deliveryDelaySeconds ≤ 43200)

/-- What `retryPolicy` checks of the policy of a queue's consumer. -/
def RetryPolicy.valid (p : RetryPolicy) (sourceQueueId : String) : Bool :=
  decide (p.maxRetries ≤ 100 ∧ p.retryDelaySeconds ≤ 43200) &&
    p.deadLetterQueue.all fun q => q.valid && decide (q.queueId ≠ sourceQueueId)

/-- `QueueCustodyAdmission`. -/
structure Admission where
  messageId : String
  body : List UInt8
  delaySeconds : Option ℕ := none

/-- `QueueCustodyClaimedMessage`. -/
structure ClaimedMessage extends Identity where
  leaseToken : String
  messageId : String
  body : List UInt8
  enqueuedAt : Instant
  visibleAt : Instant
  attempts : ℕ
  policy : RetryPolicy

/-- `claimedMessage`. -/
def ClaimedMessage.valid (m : ClaimedMessage) : Bool :=
  decide (1 ≤ m.attempts ∧ m.attempts ≤ 101) && m.policy.valid m.queueId

/-- `settlementDecision`: an acknowledgement has no delay. -/
structure Decision where
  outcome : Outcome
  delaySeconds : Option ℕ := none

/-- Only a retry has a delay. -/
def Decision.valid (d : Decision) : Bool :=
  match d.outcome with
  | .ack => d.delaySeconds.isNone
  | .retry => d.delaySeconds.all fun n => decide (n ≤ 43200)

/-! ### Admission -/

/-- The `INSERT` of one admitted message. -/
def admissionStatement (target : QueueTarget) (acceptedAt : Instant) (a : Admission) :
    Statement Tables := fun t =>
  insertMessage
    { queueId := target.queueId
      messageId := a.messageId
      body := a.body
      enqueuedAt := acceptedAt
      visibleAt := acceptedAt + a.delaySeconds.getD target.deliveryDelaySeconds * 1000
      expiresAt := acceptedAt + target.messageRetentionSeconds * 1000
      deliveries := 0
      lease := none
      origin := t.admitted.length }
    { t with admitted := t.admitted ++ [⟨target.queueId, a.body⟩] }

/-- `admissionStatements`. -/
def admissionStatements (target : QueueTarget) (acceptedAt : Instant) (messages : List Admission) :
    Option (List (Statement Tables)) :=
  if target.valid ∧ 1 ≤ messages.length ∧ messages.length ≤ maxBatchMessages ∧
      messages.all fun a => decide (a.body.length ≤ 127000) &&
        a.delaySeconds.all fun n => decide (n ≤ 43200) then
    some (messages.map (admissionStatement target acceptedAt))
  else none

/-! ### Activation -/

/-- `activateConsumer` of a first generation: there is no row, and nothing is leased. -/
def insertFirstGeneration (value : ConsumerGeneration) : Statement Tables :=
  insertCustody
    (fun t => (t.custodyOf value.queueId).isNone &&
      !t.messages.any fun m => decide (m.queueId = value.queueId) && m.lease.isSome)
    { toConsumerGeneration := value, state := .active, retirementStartedAt := none }

/-- The row is the next generation, and active. -/
def Custody.replaced (value : ConsumerGeneration) (_ : Custody) : Custody :=
  { toConsumerGeneration := value, state := .active, retirementStartedAt := none }

/-- `activateConsumer` after a tombstone. -/
def reactivate (value : ConsumerGeneration) (predecessor : Custody) : Statement Tables :=
  updateCustody
    (fun _ c => decide (c.queueId = value.queueId ∧ c.consumerId = predecessor.consumerId ∧
      c.generation = predecessor.generation ∧ c.state = .tombstone))
    (Custody.replaced value)

/-- `activateConsumer`, with the custody row it has read. -/
def activateStatements (value : ConsumerGeneration) (read : Tables) :
    Option (List (Statement Tables)) :=
  if value.policy.valid value.queueId ∧ 0 < value.generation then
    if value.generation ≠ 1 then
      match read.custodyOf value.queueId with
      | some predecessor =>
        if predecessor.state = .tombstone ∧ predecessor.generation + 1 = value.generation then
          some [reactivate value predecessor]
        else none
      | none => none
    else some [insertFirstGeneration value]
  else none

/-! ### The end of a lease -/

/-- The arguments of `terminalLeaseStatements`. -/
structure TerminalLease extends Identity where
  messageId : String
  leaseToken : String
  attempts : ℕ
  policy : RetryPolicy
  leaseExpiresAt : Option Instant := none
  /-- Maintenance may not take a message from a sent execution. -/
  reapOnly : Bool := false

/-- The `WHERE` that the three statements share. -/
def TerminalLease.guards (l : TerminalLease) (t : Tables) (m : Message) : Bool :=
  decide (m.messageId = l.messageId) && m.leasedUnder l.leaseToken l.toIdentity &&
    decide (m.deliveries = l.attempts) &&
    (m.lease.any fun x => decide (x.policy = l.policy) &&
      l.leaseExpiresAt.all fun e => decide (x.expiresAt = e)) &&
    t.inCustody l.toIdentity [.active, .retiring] && (!l.reapOnly || t.unsent m)

/-- The message in the dead-letter queue. -/
def Message.deadLetter (m : Message) (target : QueueTarget) (deadLetterId : String)
    (millis : Instant) : Message where
  queueId := target.queueId
  messageId := deadLetterId
  body := m.body
  enqueuedAt := millis
  visibleAt := millis + target.deliveryDelaySeconds * 1000
  expiresAt := millis + target.messageRetentionSeconds * 1000
  deliveries := 0
  lease := none
  origin := m.origin

/-- The first statement: the copy.  Its condition fixes the primary key. -/
def TerminalLease.copy (l : TerminalLease) (target : QueueTarget) (deadLetterId : String)
    (millis : Instant) : Statement Tables := fun t =>
  match t.messages.find? (l.guards t) with
  | none => some (t, 0)
  | some m =>
    insertMessage (m.deadLetter target deadLetterId millis)
      { t with copied := t.copied ++ [(m, m.deadLetter target deadLetterId millis)] }

/-- The second statement: the notice. -/
def TerminalLease.notify (l : TerminalLease) (target : QueueTarget) (deadLetterId : String) :
    Statement Tables := fun t =>
  match t.messages.find? (l.guards t) with
  | none => some (t, 0)
  | some _ => some (t.upsertNotice ⟨l.toIdentity, target.queueId, deadLetterId⟩, 1)

/-- The last statement: the removal. -/
def TerminalLease.removal (l : TerminalLease) : Statement Tables :=
  deleteMessages .exhaustion l.guards

/-- `terminalLeaseStatements`. -/
def terminalLease (l : TerminalLease) (millis : Instant) (deadLetterId : String) :
    Statement Tables :=
  match l.policy.deadLetterQueue with
  | none => l.removal
  | some target =>
    (l.copy target deadLetterId millis).andThen ((l.notify target deadLetterId).andThen l.removal)

/-! ### Reaping expired leases -/

/-- The lease of a message is one of the generation. -/
def Message.heldBy (m : Message) (identity : Identity) : Bool :=
  decide (m.queueId = identity.queueId) && m.lease.any fun l =>
    decide (l.consumerId = identity.consumerId ∧ l.generation = identity.generation)

/-- `lease_expires_at_ms`. -/
def Message.leaseExpiry (m : Message) : Instant := (m.lease.map Lease.expiresAt).getD 0

/-- The rows `reapExpiredLeases` selects. -/
def reapRows (identity : Identity) (millis : Instant) (limit : ℕ) (read : Tables) : List Message :=
  ((read.messages.filter fun m =>
    m.heldBy identity && decide (m.leaseExpiry ≤ millis) && read.unsent m).insertionSort
      fun a b => a.leaseExpiry ≤ b.leaseExpiry).take limit

/-- Every column of the snapshot is as it was read. -/
def Message.unchanged (row m : Message) : Bool :=
  decide (m.queueId = row.queueId ∧ m.messageId = row.messageId ∧ m.enqueuedAt = row.enqueuedAt ∧
    m.visibleAt = row.visibleAt ∧ m.expiresAt = row.expiresAt ∧ m.deliveries = row.deliveries ∧
    m.lease = row.lease)

/-- An execution that can no longer be sent: it is refused, or its reservation is over. -/
def Execution.doomed (e : Execution) (now : Instant) : Bool :=
  decide (e.state = .preEffectRefused ∨
    (e.state ∈ [.reserved, .registered] ∧ e.reservationUntil ≤ now))

/-- The `UPDATE` that refuses the expired execution of a lease. -/
def refuseLeaseStatement (identity : Identity) (leaseToken : String) : Statement Tables := fun t =>
  let p (e : Execution) : Bool := decide (e.toIdentity = identity ∧ e.leaseToken = some leaseToken ∧
    e.state ∈ [.reserved, .registered] ∧ e.reservationUntil ≤ t.now)
  some ({ t with
    executions := Table.update p (fun e => { e with state := .preEffectRefused }) t.executions },
    t.executions.countP p)

/-- The refund of a message whose execution can no longer be sent. -/
def refundReapedStatement (millis : Instant) (row : Message) : Statement Tables :=
  refundMessages
    (fun t m => row.unchanged m && t.executions.any fun e => e.binds m && e.doomed t.now) millis

/-- The removal of a message whose retention is over. -/
def expireReapedStatement (identity : Identity) (millis : Instant) (row : Message) :
    Statement Tables :=
  deleteMessages (.expiry millis) fun t m =>
    row.unchanged m && decide (m.expiresAt ≤ millis) &&
      t.inCustody identity [.active, .retiring] && t.unsent m

/-- The return of a message that has attempts left. -/
def retryReapedStatement (identity : Identity) (millis retryAt : Instant) (row : Message) :
    Statement Tables :=
  updateMessages
    (fun t m => row.unchanged m && decide (millis < m.expiresAt) &&
      t.inCustody identity [.active, .retiring] && t.unsent m)
    (Message.unleased retryAt)

/-- The statements of one row, and the leases whose executions the batch refuses after it. -/
def reapRow (identity : Identity) (millis : Instant) (deadLetterId : String)
    (refused : List String) (row : Message) (lease : Lease) (execution : Option Execution) :
    List (Statement Tables) × List String :=
  if row.expiresAt ≤ millis then ([expireReapedStatement identity millis row], refused)
  else
    match execution with
    | some e =>
      if e.state ∈ [.reserved, .registered, .preEffectRefused] then
        -- until its deadline a registered sender could still win authorization
        if e.state ≠ .preEffectRefused ∧ millis < e.reservationUntil then ([], refused)
        else if e.state ≠ .preEffectRefused ∧ lease.token ∉ refused then
          ([refuseLeaseStatement identity lease.token, refundReapedStatement millis row],
            lease.token :: refused)
        else ([refundReapedStatement millis row], refused)
      else settled
    | none => settled
where
  /-- The row has no execution that is still to be sent. -/
  settled : List (Statement Tables) × List String :=
    if row.deliveries < 1 + lease.policy.maxRetries then
      ([retryReapedStatement identity millis
        (max row.visibleAt
          (safeFutureMillis lease.expiresAt (lease.policy.retryDelaySeconds * 1000))) row], refused)
    else
      ([terminalLease
        { toIdentity := identity
          messageId := row.messageId
          leaseToken := lease.token
          attempts := row.deliveries
          policy := lease.policy
          leaseExpiresAt := some lease.expiresAt
          reapOnly := true } millis deadLetterId], refused)

/-- The loop of `reapExpiredLeases` over the selected rows. -/
def reapLoop (identity : Identity) (millis : Instant) (read : Tables) :
    List String → List String → List Message → List (Statement Tables)
  | _, _, [] => []
  | ids, refused, row :: rows =>
    match row.lease with
    | none => reapLoop identity millis read ids.tail refused rows
    | some lease =>
      let execution := read.executionOf row
      -- the handler of a sent execution may still be using the message
      if execution.any fun e => decide (e.state = .sendAuthorized) then
        reapLoop identity millis read ids.tail refused rows
      else
        let result := reapRow identity millis (ids.headD "") refused row lease execution
        result.1 ++ reapLoop identity millis read ids.tail result.2 rows

/-- `reapExpiredLeases`, as far as it writes. -/
def reapStatements (identity : Identity) (millis : Instant) (limit : ℕ) (ids : List String)
    (read : Tables) : List (Statement Tables) :=
  reapLoop identity millis read ids [] (reapRows identity millis limit read)

/-! ### The active window -/

/-- `readUnleasedWindow`. -/
def unleasedWindow (queueId : String) (read : Tables) : List Message :=
  ((read.messages.filter fun m => decide (m.queueId = queueId) && m.lease.isNone).insertionSort
    fun a b => a.visibleAt ≤ b.visibleAt).take maxBatchMessages

/-- The removal of an unleased message whose retention is over. -/
def expireUnleasedStatement (active : ConsumerGeneration) (millis : Instant) (row : Message) :
    Statement Tables :=
  deleteMessages (.expiry millis) fun t m =>
    row.unchanged m && m.lease.isNone && decide (m.expiresAt ≤ millis) &&
      t.inCustody active.toIdentity [.active]

/-- The lease that takes an exhausted message out of the window. -/
def leaseExhaustedStatement (active : ConsumerGeneration) (millis : Instant) (leaseToken : String)
    (row : Message) : Statement Tables :=
  updateMessages
    (fun t m => row.unchanged m && m.lease.isNone &&
      decide (m.visibleAt ≤ millis ∧ millis < m.expiresAt) &&
      t.inCustody active.toIdentity [.active])
    fun m => { m with
      lease := some
        { token := leaseToken
          expiresAt := safeFutureMillis millis maxLeaseMillis
          consumerId := active.consumerId
          generation := active.generation
          policy := active.policy } }

/-- The loop of `progressActiveWindow`: retention and exhaustion, a bounded page of it.  Each
exhausted message draws a lease token and the id of its dead-letter copy. -/
def progressLoop (active : ConsumerGeneration) (millis : Instant) :
    ℕ → List (String × String) → List Message → List (Statement Tables)
  | _, _, [] => []
  | maintenance, ids, row :: rows =>
    if maxReapMessages ≤ maintenance then []
    else if row.expiresAt ≤ millis then
      expireUnleasedStatement active millis row :: progressLoop active millis (maintenance + 1) ids rows
    else if millis < row.visibleAt ∨ row.deliveries < 1 + active.policy.maxRetries then
      progressLoop active millis maintenance ids rows
    else
      let drawn := ids.headD ("", "")
      leaseExhaustedStatement active millis drawn.1 row ::
        terminalLease
          { toIdentity := active.toIdentity
            messageId := row.messageId
            leaseToken := drawn.1
            attempts := row.deliveries
            policy := active.policy
            leaseExpiresAt := some (safeFutureMillis millis maxLeaseMillis) } millis drawn.2 ::
        progressLoop active millis (maintenance + 1) ids.tail rows

/-- `progressActiveWindow`. -/
def progressStatements (active : ConsumerGeneration) (millis : Instant)
    (ids : List (String × String)) (window : List Message) : List (Statement Tables) :=
  progressLoop active millis 0 ids window

/-! ### Claiming -/

/-- The execution a claim is made for, before it is sent. -/
structure ReservationRef where
  batchId : String
  reservationToken : String

/-- What `claim` is asked. -/
structure ClaimInput extends Identity where
  limit : ℕ
  leaseMillis : ℕ
  /-- Does the attachment the claim is fenced by still stand (`v2Attachment`)? -/
  attached : Bool := true
  reservation : Option ReservationRef := none

/-- The rows a claim takes, of a window: due, retained, and with an attempt left. -/
def claimCandidates (active : ConsumerGeneration) (millis : Instant) (limit : ℕ)
    (window : List Message) : List Message :=
  (window.filter fun m => decide (m.visibleAt ≤ millis ∧ millis < m.expiresAt ∧
    m.deliveries < 1 + active.policy.maxRetries)).take limit

/-- The candidates whose bodies a later query still finds. -/
def withBodies (read : Tables) (candidates : List Message) : List (Message × List UInt8) :=
  candidates.filterMap fun m => (read.message m.queueId m.messageId).map fun r => (m, r.body)

/-- The execution of a reservation is one of the generation. -/
def Execution.isOf (e : Execution) (r : ReservationRef) (identity : Identity) : Bool :=
  decide (e.batchId = r.batchId ∧ e.reservationToken = r.reservationToken ∧
    e.toIdentity = identity)

/-- The execution still lets its claim lease messages. -/
def Tables.reservedFor (t : Tables) (identity : Identity) (r : ReservationRef)
    (leaseToken : String) : Bool :=
  t.executions.any fun e => e.isOf r identity &&
    decide (e.leaseToken = some leaseToken ∧ e.state = .reserved ∧ t.now < e.reservationUntil)

/-- The `UPDATE` that leases one message. -/
def leaseStatement (input : ClaimInput) (active : ConsumerGeneration) (millis : Instant)
    (leaseToken : String) (row : Message) : Statement Tables :=
  updateMessages
    (fun t m => row.unchanged m && m.lease.isNone &&
      decide (m.visibleAt ≤ millis ∧ millis < m.expiresAt) &&
      t.inCustody active.toIdentity [.active] && input.attached &&
      input.reservation.all fun r => t.reservedFor active.toIdentity r leaseToken)
    fun m => { m with
      deliveries := m.deliveries + 1
      lease := some
        { token := leaseToken
          expiresAt := millis + input.leaseMillis
          consumerId := active.consumerId
          generation := active.generation
          policy := active.policy } }

/-- The `UPDATE` that binds the lease of a reservation, with its triggers. -/
def bindLeaseStatement (identity : Identity) (r : ReservationRef) (leaseToken : String) :
    Statement Tables := fun t =>
  let p (e : Execution) : Bool := e.isOf r identity &&
    decide (e.state = .reserved ∧ e.leaseToken = none)
  -- `queue_v2_batch_execution_bind_lease_guard`, and the unique index on bound leases
  if t.executions.any p && t.executions.any fun e =>
      (p e && decide (e.reservationUntil ≤ t.now)) ||
        decide (e.toIdentity = identity ∧ e.leaseToken = some leaseToken) then none
  else
    some ({ t with
      executions :=
        Table.update p (fun e => { e with leaseToken := some leaseToken }) t.executions },
      t.executions.countP p)

/-- What a claim commits on its candidates. -/
def leaseStatements (input : ClaimInput) (active : ConsumerGeneration) (millis : Instant)
    (leaseToken : String) (candidates : List (Message × List UInt8)) : List (Statement Tables) :=
  (match input.reservation with
    | none => []
    | some r => [bindLeaseStatement active.toIdentity r leaseToken]) ++
  candidates.map fun c => leaseStatement input active millis leaseToken c.1

/-- The message a claim hands out for a candidate whose `UPDATE` changed one row. -/
def claimedOf (active : ConsumerGeneration) (leaseToken : String) (c : Message × List UInt8) :
    ClaimedMessage where
  toIdentity := active.toIdentity
  leaseToken := leaseToken
  messageId := c.1.messageId
  body := c.2
  enqueuedAt := c.1.enqueuedAt
  visibleAt := c.1.visibleAt
  attempts := c.1.deliveries + 1
  policy := active.policy

/-- What a claim hands out, from the changes of its batch. -/
def handedOut (input : ClaimInput) (active : ConsumerGeneration) (leaseToken : String)
    (candidates : List (Message × List UInt8)) (changes : List ℕ) : List ClaimedMessage :=
  ((candidates.zip (if input.reservation.isSome then changes.tail else changes)).filter
    fun c => decide (c.2 = 1)).map fun c => claimedOf active leaseToken c.1

/-! ### Release and settlement -/

/-- The lease of one message is the one a claimed message was handed out under. -/
def ClaimedMessage.isLeaseOf (c : ClaimedMessage) (m : Message) : Bool :=
  decide (m.messageId = c.messageId) && m.leasedUnder c.leaseToken c.toIdentity

/-- As `isLeaseOf`, and the attempt and the policy are the snapshotted ones. -/
def ClaimedMessage.isClaimOf (c : ClaimedMessage) (m : Message) : Bool :=
  c.isLeaseOf m && decide (m.deliveries = c.attempts) &&
    m.lease.any fun l => decide (l.policy = c.policy)

/-- `release`. -/
def releaseStatement (c : ClaimedMessage) (visibleAt : Instant) : Statement Tables :=
  refundMessages (fun _ m => c.isLeaseOf m) visibleAt

/-- An acknowledged message is deleted. -/
def ackStatement (c : ClaimedMessage) : Statement Tables :=
  deleteMessages (.ack c.leaseToken c.toIdentity) fun _ m => c.isLeaseOf m

/-- A message to retry is visible again later. -/
def retryStatement (c : ClaimedMessage) (visibleAt : Instant) : Statement Tables :=
  updateMessages (fun _ m => c.isClaimOf m) (Message.unleased visibleAt)

/-- The last attempt, as the dead letter names it. -/
def ClaimedMessage.terminal (c : ClaimedMessage) : TerminalLease where
  toIdentity := c.toIdentity
  messageId := c.messageId
  leaseToken := c.leaseToken
  attempts := c.attempts
  policy := c.policy

/-- The delay of the decision, or that of the policy. -/
def Decision.delay (d : Decision) (c : ClaimedMessage) : ℕ :=
  d.delaySeconds.getD c.policy.retryDelaySeconds

/-- `settle`. -/
def settleStatement (c : ClaimedMessage) (d : Decision) (millis : Instant) (deadLetterId : String) :
    Statement Tables :=
  match d.outcome with
  | .ack => ackStatement c
  | .retry =>
    if c.attempts < 1 + c.policy.maxRetries then retryStatement c (millis + d.delay c * 1000)
    else terminalLease c.terminal millis deadLetterId

/-! ### The sweep -/

/-- The rows `sweepExpired` selects. -/
def sweepRows (millis : Instant) (limit : ℕ) (read : Tables) : List Message :=
  ((read.messages.filter fun m => decide (m.expiresAt ≤ millis) && read.unsent m).insertionSort
    fun a b => a.expiresAt ≤ b.expiresAt).take limit

/-- `sweepExpired`'s `DELETE`; of the lease it compares the token and the expiry. -/
def sweepStatement (millis : Instant) (row : Message) : Statement Tables :=
  deleteMessages (.expiry millis) fun t m =>
    decide (m.queueId = row.queueId ∧ m.messageId = row.messageId ∧
      m.enqueuedAt = row.enqueuedAt ∧ m.visibleAt = row.visibleAt ∧ m.expiresAt = row.expiresAt ∧
      m.deliveries = row.deliveries ∧ m.lease.map Lease.token = row.lease.map Lease.token ∧
      m.lease.map Lease.expiresAt = row.lease.map Lease.expiresAt ∧ m.expiresAt ≤ millis) &&
      t.unsent m

/-! ### Retirement -/

/-- `beginRetirement`. -/
def beginRetirementStatement (identity : Identity) (millis : Instant) : Statement Tables :=
  updateCustody (fun _ c => decide (c.toIdentity = identity ∧ c.state = .active))
    fun c => { c with state := .retiring, retirementStartedAt := some millis }

/-- The condition under which a retiring generation may end: no lease and no notice of it. -/
def Tables.drained (t : Tables) (identity : Identity) : Bool :=
  !(t.messages.any fun m => m.heldBy identity) &&
    !t.notices.any fun n => decide (n.source = identity)

/-- `finishRetirement`: the next generation, or the tombstone. -/
def finishRetirementStatement (identity : Identity) (replacement : Option ConsumerGeneration) :
    Statement Tables :=
  updateCustody
    (fun t c => decide (c.toIdentity = identity ∧ c.state = .retiring) && t.drained identity)
    fun c =>
      match replacement with
      | some value => c.replaced value
      | none => { c with state := .tombstone, retirementStartedAt := none }

/-- What `finishRetirement` checks of a replacement. -/
def replacementValid (identity : Identity) (replacement : Option ConsumerGeneration) : Bool :=
  replacement.all fun value => value.policy.valid value.queueId &&
    decide (value.queueId = identity.queueId ∧ value.generation = identity.generation + 1)

end Takoserver.Queue
