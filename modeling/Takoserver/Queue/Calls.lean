import Takoserver.Lib.Machine
import Takoserver.Queue.Batches

/-!
# Calls on a queue and their interleavings

A call reads rows, in queries of their own, and then commits one batch.  A read may have run
on any tables there have been: an action names, by number, the earlier tables each of its
reads ran on, so every stale read is among the runs.  It also carries the clock of the caller,
the ids it draws, and what the clock of the database shows each statement.

`settleBatchMessage` reads again when its batch is refused or its acknowledgement is lost, and
only then replies; such a call waits, and replies in a step of its own.
-/

namespace Takoserver.Queue

/-! ### Claims -/

/-- Which earlier states a claim has read. -/
structure ClaimReads where
  custody : ℕ
  leases : ℕ
  window : ℕ
  bodies : ℕ

/-- The random ids of a claim. -/
structure ClaimIds where
  reap : List String := []
  window : List (String × String) := []
  lease : String := ""

/-- What `claim` decides once it has read. -/
inductive ClaimPlan where
  | idle
  | maintain (statements : List (Statement Tables))
  | lease (active : ConsumerGeneration) (candidates : List (Message × List UInt8))

/-- `claim` up to its batch. -/
def ClaimInput.plan (input : ClaimInput) (millis : Instant) (reads : ClaimReads) (ids : ClaimIds)
    (read : ℕ → Tables) : ClaimPlan :=
  if input.limit < 1 ∨ maxBatchMessages < input.limit ∨ input.leaseMillis < 1 ∨
      maxLeaseMillis < input.leaseMillis then .idle
  else
    match (read reads.custody).custodyOf input.queueId with
    | none => .idle
    | some c =>
      if c.state = .active ∧ c.toIdentity = input.toIdentity then
        if reapRows c.toIdentity millis maxReapMessages (read reads.leases) ≠ [] then
          .maintain (reapStatements c.toIdentity millis maxReapMessages ids.reap (read reads.leases))
        else
          let window := unleasedWindow c.queueId (read reads.window)
          let maintenance := progressStatements c.toConsumerGeneration millis ids.window window
          if !maintenance.isEmpty then .maintain maintenance
          else
            let candidates := withBodies (read reads.bodies)
              (claimCandidates c.toConsumerGeneration millis input.limit window)
            if candidates = [] ∨ ids.lease = "" then .idle
            else .lease c.toConsumerGeneration candidates
      else .idle

/-- The batch of a claim. -/
def ClaimInput.statements (input : ClaimInput) (millis : Instant) (ids : ClaimIds) :
    ClaimPlan → Option (List (Statement Tables))
  | .idle => none
  | .maintain statements => some statements
  | .lease active candidates => some (leaseStatements input active millis ids.lease candidates)

/-- What a claim returns, from the changes of its batch. -/
def ClaimInput.claimed (input : ClaimInput) (ids : ClaimIds) (changes : List ℕ) :
    ClaimPlan → List ClaimedMessage
  | .lease active candidates => handedOut input active ids.lease candidates changes
  | _ => []

/-! ### The settlement of one message of a batch -/

/-- What a settlement replies. -/
inductive SettleReply where
  | settled
  | alreadySettled
  | unknownBatch
  | unknownMessage
  | unavailable
  deriving DecidableEq

/-- The arguments of `settleBatchMessage`. -/
structure SettleRequest where
  batchId : String
  message : ClaimedMessage
  decision : Decision
  token : String

/-- The arguments of `settleRegisteredBatchMessage`. -/
structure RegisteredRequest where
  batchId : String
  messageId : String
  expected : Identity
  leaseToken : String
  decision : Decision
  token : String

/-- The settlement of a batch message, or of a registered one. -/
inductive SettleCall where
  | message (r : SettleRequest)
  | registered (r : RegisteredRequest)

/-- The delay a decision asks for, `retryDelaySeconds` being the policy's. -/
def Decision.effectiveDelay (d : Decision) (retryDelaySeconds : ℕ) : Option ℕ :=
  match d.outcome with
  | .ack => none
  | .retry => some (d.delaySeconds.getD retryDelaySeconds)

/-- A reply, with what its call asked for. -/
structure Answer where
  batchId : String
  messageId : String
  token : String
  decision : Decision
  reply : SettleReply

/-- A reply from the reads alone, or a batch. -/
inductive SettlePlan where
  | reply (r : SettleReply)
  | write (r : SettleRequest)

/-- The settlement is the one a call asked for: its token, outcome and delay. -/
def Settlement.asked (s : Settlement) (token : String) (d : Decision) (retryDelaySeconds : ℕ) :
    Bool :=
  decide (s.token = token ∧ s.outcome = d.outcome ∧
    s.delaySeconds = d.effectiveDelay retryDelaySeconds)

/-- The receipts of a batch. -/
def Tables.receiptsOf (t : Tables) (batchId : String) : List Receipt :=
  t.receipts.filter fun r => decide (r.batchId = batchId)

/-- `settleBatchMessage` up to its batch. -/
def SettleRequest.plan (r : SettleRequest) (read : Tables) : SettlePlan :=
  if read.receiptsOf r.batchId = [] then .reply .unknownBatch
  else
    match Table.find Receipt.key read.receipts (r.batchId, r.message.messageId) with
    | none => .reply .unknownMessage
    | some row =>
      if !row.sameClaim r.message then .reply .unknownMessage
      else
        match row.state with
        | .settled _ => .reply .alreadySettled
        | .settling _ => .reply .unavailable
        | .pending => .write r

/-- The claimed message that `settleRegisteredBatchMessage` reconstructs from a receipt. -/
def RegisteredRequest.message (r : RegisteredRequest) (row : Receipt) : ClaimedMessage where
  toIdentity := r.expected
  leaseToken := r.leaseToken
  messageId := r.messageId
  body := []
  enqueuedAt := 1
  visibleAt := 1
  attempts := row.attempts
  policy := row.policy

/-- `settleRegisteredBatchMessage` up to the batch of the `settleBatchMessage` it calls. -/
def RegisteredRequest.plan (r : RegisteredRequest) (read read' : Tables) : SettlePlan :=
  if read.receiptsOf r.batchId = [] then .reply .unknownBatch
  else
    match Table.find Receipt.key read.receipts (r.batchId, r.messageId) with
    | none => .reply .unknownMessage
    | some row =>
      if row.toIdentity ≠ r.expected ∨ row.leaseToken ≠ r.leaseToken then .reply .unknownMessage
      else
        match row.state with
        | .settled s =>
          .reply (if s.asked r.token r.decision row.policy.retryDelaySeconds then .settled
            else .alreadySettled)
        | .settling _ => .reply .unavailable
        | .pending =>
          SettleRequest.plan ⟨r.batchId, r.message row, r.decision, r.token⟩ read'

/-- What `settleBatchMessage` replies when it has read the receipts again. -/
def SettleRequest.reread (r : SettleRequest) (t : Tables) : SettleReply :=
  match Table.find Receipt.key t.receipts (r.batchId, r.message.messageId) with
  | none => .unknownBatch
  | some row =>
    if !row.sameClaim r.message then .unknownMessage
    else
      match row.state with
      | .settled s =>
        if s.asked r.token r.decision r.message.policy.retryDelaySeconds then .settled
        else .alreadySettled
      | _ => .unavailable

/-- The checks of the input. -/
def SettleCall.valid : SettleCall → Bool
  | .message r => r.message.valid && r.decision.valid
  | .registered r => r.decision.valid

/-- What the reads decide. -/
def SettleCall.plan : SettleCall → Tables → Tables → SettlePlan
  | .message r, read, _ => r.plan read
  | .registered r, read, read' => r.plan read read'

/-- The reply, with what it was asked. -/
def SettleCall.answer (reply : SettleReply) : SettleCall → Answer
  | .message r => ⟨r.batchId, r.message.messageId, r.token, r.decision, reply⟩
  | .registered r => ⟨r.batchId, r.messageId, r.token, r.decision, reply⟩

/-- A reply of `settleBatchMessage`, which its caller passes on. -/
def SettleRequest.answer (r : SettleRequest) (reply : SettleReply) : Answer :=
  ⟨r.batchId, r.message.messageId, r.token, r.decision, reply⟩

/-! ### Calls -/

/-- The calls that commit one batch. -/
inductive Call where
  /-- `admit` is the case of one message. -/
  | admitBatch (target : QueueTarget) (messages : List Admission) (acceptedAt : Instant)
  | activateConsumer (value : ConsumerGeneration) (custodyRead : ℕ)
  | claim (input : ClaimInput) (millis : Instant) (reads : ClaimReads) (ids : ClaimIds)
  | release (message : ClaimedMessage) (visibleAt : Instant)
  | settle (message : ClaimedMessage) (decision : Decision) (millis : Instant)
      (deadLetterId : String)
  | registerSettlementBatch (batchId : String) (messages : List ClaimedMessage)
      (reservationToken : Option String)
  | renewRegisteredV2BatchLeases (x : ExecutionIdentity)
  | acknowledgeTransferNotice (notice : Notice)
  | sweepExpired (millis : Instant) (limit : ℕ) (rowsRead : ℕ)
  | beginRetirement (identity : Identity) (millis : Instant)
  /-- `owned` is the guard that `reapRetiredV2` puts before its batch. -/
  | reapRetired (identity : Identity) (millis : Instant) (limit : ℕ) (ids : List String)
      (custodyRead rowsRead : ℕ) (owned : Bool)
  | finishRetirement (identity : Identity) (replacement : Option ConsumerGeneration)
  | refuseExpired (consumerUid : String)
  | reserve (reservation : Reservation) (servable : Bool)
  | cancelV2QueueBatchBeforeSend (r : ReservationRef)
  | authorizeV2QueueBatchSend (x : ExecutionIdentity) (servable : Bool)
  | confirmV2QueueBatchRetirement (x : ExecutionIdentity) (digest : String) (drained : Bool)
  | refuseUnsent (consumerUid : String) (owned : Bool)
  | refundUnsent (consumerUid : String) (owned : Bool)
  | attach (queueId consumerUid : String) (policy : RetryPolicy) (owned : Bool) (custodyRead : ℕ)
  | beginRetiring (identity : Identity) (millis : Instant) (owned : Bool)
  | replace (identity : Identity) (policy : Option RetryPolicy) (owned : Bool)

/-- `reapRetired` and `reapRetiredV2` up to their batch. -/
def reapRetiredStatements (identity : Identity) (millis : Instant) (limit : ℕ) (ids : List String)
    (custodyRead rowsRead : Tables) : Option (List (Statement Tables)) :=
  if 1 ≤ limit ∧ limit ≤ maxReapMessages ∧ (custodyRead.custodyOf identity.queueId).any fun c =>
      decide (c.state = .retiring ∧ c.toIdentity = identity) then
    some (reapStatements identity millis limit ids rowsRead)
  else none

/-- The batch a call commits, from what it has read; `none` where it ends without one. -/
def Call.statements (read : ℕ → Tables) : Call → Option (List (Statement Tables))
  | .admitBatch target messages acceptedAt => admissionStatements target acceptedAt messages
  | .activateConsumer value custodyRead => activateStatements value (read custodyRead)
  | .claim input millis reads ids => input.statements millis ids (input.plan millis reads ids read)
  | .release c visibleAt => if c.valid then some [releaseStatement c visibleAt] else none
  | .settle c d millis deadLetterId =>
      if c.valid && d.valid then some [settleStatement c d millis deadLetterId] else none
  | .registerSettlementBatch batchId messages reservationToken =>
      registerStatements batchId messages reservationToken
  | .renewRegisteredV2BatchLeases x => some [renewStatement x]
  | .acknowledgeTransferNotice n => some [deleteNotice n]
  | .sweepExpired millis limit rowsRead =>
      if 1 ≤ limit ∧ limit ≤ maxBatchMessages then
        some ((sweepRows millis limit (read rowsRead)).map (sweepStatement millis))
      else none
  | .beginRetirement identity millis => some [beginRetirementStatement identity millis]
  | .reapRetired identity millis limit ids custodyRead rowsRead owned =>
      if owned then
        reapRetiredStatements identity millis limit ids (read custodyRead) (read rowsRead)
      else none
  | .finishRetirement identity replacement =>
      if replacementValid identity replacement then
        some [finishRetirementStatement identity replacement]
      else none
  | .refuseExpired consumerUid => some [refuseExpiredStatement consumerUid]
  | .reserve r servable => some [reserveStatement r servable]
  | .cancelV2QueueBatchBeforeSend r => some (cancelStatements r)
  | .authorizeV2QueueBatchSend x servable => some [authorizeStatement x servable]
  | .confirmV2QueueBatchRetirement x digest drained => some [retireStatement x digest drained]
  | .refuseUnsent consumerUid owned => some [refuseUnsentStatement consumerUid owned]
  | .refundUnsent consumerUid owned => some [refundUnsentStatement consumerUid owned]
  | .attach queueId consumerUid policy owned custodyRead =>
      match (read custodyRead).custodyOf queueId with
      | none =>
        if policy.valid queueId then some [attachStatement queueId consumerUid policy owned none]
        else none
      | some row =>
        if row.state = .tombstone ∧ policy.valid queueId then
          some [attachStatement queueId consumerUid policy owned (some row)]
        else none
  | .beginRetiring identity millis owned => some [beginRetiringStatement identity millis owned]
  | .replace identity policy owned =>
      if policy.all fun p => p.valid identity.queueId then
        some [replaceStatement identity identity.consumerId policy owned]
      else none

/-- The messages a claim hands out. -/
def Call.handsOut (read : ℕ → Tables) (changes : List ℕ) : Call → List ClaimedMessage
  | .claim input millis reads ids => input.claimed ids changes (input.plan millis reads ids read)
  | _ => []

/-- The batch that `authorizeV2QueueBatchSend` returns `authorized` for: its `UPDATE` changed
one row, and it knows so. -/
def Call.authorizes (changes : List ℕ) (acknowledged : Bool) : Call → List String
  | .authorizeV2QueueBatchSend x _ =>
      if acknowledged ∧ changes = [1] then [x.batchId] else []
  | _ => []

/-! ### The machine -/

/-- The tables now, all the tables there have been, and what the calls were answered. -/
structure Host where
  tables : Tables := {}
  /-- The tables of every moment so far, in order. -/
  past : List Tables := [{}]
  /-- The messages that claims have handed out. -/
  handed : List ClaimedMessage := []
  /-- The batches whose authorization was answered `authorized`. -/
  authorized : List String := []
  /-- The settlements that will read again before they reply. -/
  waiting : List SettleRequest := []
  answers : List Answer := []

/-- The tables a read ran on. -/
def Host.read (s : Host) (i : ℕ) : Tables := s.past.getD i s.tables

/-- One move: of a call or of a settlement. -/
inductive Action where
  /-- A call commits its batch; its acknowledgement may be lost. -/
  | call (c : Call) (clocks : List Instant) (acknowledged : Bool)
  /-- A settlement of a batch message replies from its reads or runs its batch. -/
  | settle (c : SettleCall) (firstRead secondRead : ℕ) (millis : Instant) (deadLetterId : String)
      (clocks : List Instant) (acknowledged : Bool)
  /-- A waiting settlement reads the receipts and replies. -/
  | reply (n : ℕ)

/-- The readings of the database clock in a step. -/
def Action.clocks : Action → List Instant
  | .call _ clocks _ => clocks
  | .settle _ _ _ _ _ clocks _ => clocks
  | .reply _ => []

/-- A batch at given readings of the clock. -/
def Tables.commit (t : Tables) (clocks : List Instant) (statements : List (Statement Tables)) :
    Option (Tables × List ℕ) :=
  Statement.batch (Statement.clocked Tables.setNow clocks statements) t

/-- The tables are what a batch made them. -/
def Host.moved (s : Host) (t : Tables) : Host := { s with tables := t, past := s.past ++ [t] }

/-- The machine. -/
def Host.next (s : Host) : Action → Option Host
  | .call c clocks acknowledged =>
      (c.statements s.read).bind fun statements =>
        (s.tables.commit clocks statements).map fun r =>
          { s.moved r.1 with
            handed := s.handed ++ c.handsOut s.read r.2
            authorized := s.authorized ++ c.authorizes r.2 acknowledged }
  | .settle c firstRead secondRead millis deadLetterId clocks acknowledged =>
      if c.valid then
        match c.plan (s.read firstRead) (s.read secondRead) with
        | .reply reply => some { s with answers := s.answers ++ [c.answer reply] }
        | .write r =>
          match s.tables.commit clocks
              [settleBatch r.batchId r.message r.decision r.token millis deadLetterId] with
          | some (t, changes) =>
            if acknowledged then
              some { s.moved t with
                answers := s.answers ++
                  [r.answer (if changes = [1] then .settled else .unavailable)] }
            else some { s.moved t with waiting := s.waiting ++ [r] }
          | none => some { s with waiting := s.waiting ++ [r] }
      else none
  | .reply n =>
      s.waiting[n]?.map fun r =>
        { s with
          waiting := s.waiting.eraseIdx n
          answers := s.answers ++ [r.answer (r.reread s.tables)] }

/-- The machine of all interleavings of any number of calls. -/
def queues : Machine Host Action where
  init := {}
  next := Host.next

end Takoserver.Queue
