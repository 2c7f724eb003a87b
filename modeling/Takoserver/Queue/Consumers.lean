import Takoserver.Queue.Calls
import Takoserver.V2.Store

/-!
# The Operations of a queue's consumer

A `QueueConsumer` Resource is created, updated and deleted by Operations of the engine.  `run` of
`src/takoform-v2/worker-queue-consumer-backend.ts` carries one out on the custody row of its
queue; `claimRegisteredBatch` of `src/takoform-v2/worker-queue-delivery.ts` delivers under the
row, and the scheduler of `src/takoform-v2/worker-queue-scheduler.ts` looks for the Operation
behind a transfer notice.

Two numbers are called generation.  The one of the Resource counts its accepted Operations; the
one of the custody row counts the policies and consumers that the queue has had.

The machine has both databases.  Each statement of `run` is a call on the queue that is fenced by
the lease of its Operation; what `run` reads of the dead-letter queue's own spec, and of the
Worker that serves, an action carries.
-/

namespace Takoserver.Queue

open V2 (Db ResourceRow OperationRow StoreAction Uuid)

/-- `QUEUE_CONSUMER_FORM_URL`. -/
def queueConsumerFormUrl : String := "https://edge.forms.takoform.com/forms/QueueConsumer/0.3.0/"

def uidText (uid : Uuid) : String := toString uid

/-- `v2QueueId`. -/
def v2QueueId (uid : String) : String := "takoform-v2-queue:" ++ uid

/-! ### The spec of a consumer -/

/-- The spec of a consumer. -/
structure QueueConsumerSpec where
  queue : String
  worker : String
  maxBatchSize : ℕ
  maxBatchTimeoutSeconds : ℕ
  maxConcurrency : ℕ
  maxRetries : ℕ
  retryDelaySeconds : ℕ
  deadLetterQueue : Option String

/-- `UID`. -/
def isUid (text : String) : Bool :=
  match text.toList with
  | [] => false
  | c :: cs => c.isAlphanum && decide (cs.length ≤ 127) &&
      cs.all fun c => c.isAlphanum || decide (c ∈ ['.', '_', '-'])

/-- `closedRecord`. -/
def closedRecord (input : Json) (required optional : List String) : Bool :=
  match input with
  | .obj members => (members.all fun m => decide (m.1 ∈ required ++ optional)) &&
      required.all fun name => members.any fun m => decide (m.1 = name)
  | _ => false

/-- `boundedInteger`. -/
def boundedInteger (value : Option Json) (low high : ℕ) : Option ℕ :=
  match value with
  | some (.num q) => if q.den = 1 ∧ low ≤ q.num ∧ q.num ≤ high then some q.num.toNat else none
  | _ => none

/-- `ref`. -/
def parseRef (value : Json) : Option String :=
  if closedRecord value ["resourceUid"] [] then
    match value.get? "resourceUid" with
    | some (.str uid) => if isUid uid then some uid else none
    | _ => none
  else none

/-- `ref` of a member that may be missing. -/
def parseOptionalRef : Option Json → Option (Option String)
  | none => some none
  | some value => (parseRef value).map some

/-- The checks of a consumer's spec. -/
def parseQueueConsumerSpec (input : Json) : Option QueueConsumerSpec :=
  if closedRecord input ["queue", "worker", "maxBatchSize", "maxBatchTimeoutSeconds",
      "maxConcurrency", "maxRetries", "retryDelaySeconds"] ["deadLetterQueue"] then do
    let queue ← (input.get? "queue").bind parseRef
    let worker ← (input.get? "worker").bind parseRef
    let deadLetterQueue ← parseOptionalRef (input.get? "deadLetterQueue")
    let maxBatchSize ← boundedInteger (input.get? "maxBatchSize") 1 100
    let maxBatchTimeoutSeconds ← boundedInteger (input.get? "maxBatchTimeoutSeconds") 0 60
    let maxConcurrency ← boundedInteger (input.get? "maxConcurrency") 1 250
    let maxRetries ← boundedInteger (input.get? "maxRetries") 0 100
    let retryDelaySeconds ← boundedInteger (input.get? "retryDelaySeconds") 0 43200
    if deadLetterQueue = some queue then none
    else
      some { queue, worker, maxBatchSize, maxBatchTimeoutSeconds, maxConcurrency, maxRetries
             retryDelaySeconds, deadLetterQueue }
  else none

/-- The uid a reference holds. -/
theorem textAt_of_parseRef {value : Json} {uid : String} (h : parseRef value = some uid) :
    value.textAt? ["resourceUid"] = some uid := by
  unfold parseRef at h
  split at h
  · split at h
    · next htext =>
      split at h
      · simp [Json.textAt?, Json.at?, htext, Option.some.inj h]
      · cases h
    · cases h
  · cases h

theorem texts_of_parse {input : Json} {spec : QueueConsumerSpec}
    (h : parseQueueConsumerSpec input = some spec) :
    input.textAt? ["queue", "resourceUid"] = some spec.queue ∧
      input.textAt? ["deadLetterQueue", "resourceUid"] = spec.deadLetterQueue := by
  have hmember : ∀ {name value uid}, input.get? name = some value → parseRef value = some uid →
      input.textAt? [name, "resourceUid"] = some uid := by
    intro name value uid hget hparse
    have htext : input.textAt? [name, "resourceUid"] = value.textAt? ["resourceUid"] := by
      simp [Json.textAt?, Json.at?, hget]
    rw [htext, textAt_of_parseRef hparse]
  unfold parseQueueConsumerSpec at h
  split at h
  swap
  · cases h
  simp only [Option.bind_eq_bind, Option.bind_eq_some_iff] at h
  obtain ⟨_, ⟨_, hvalue, hqueue⟩, _, -, _, hdead, a, -, b, -, c, -, d, -, e, -, h⟩ := h
  split at h
  · cases h
  cases h
  refine ⟨hmember hvalue hqueue, ?_⟩
  cases hget : input.get? "deadLetterQueue" with
  | none =>
    rw [hget] at hdead
    cases hdead
    simp [Json.textAt?, Json.at?, hget]
  | some =>
    rw [hget] at hdead
    obtain ⟨_, huid, rfl⟩ := Option.map_eq_some_iff.mp hdead
    exact hmember hget huid

/-- `validateQueueConsumerUpdate`. -/
def validateQueueConsumerUpdate (previous next : Json) : Bool :=
  match parseQueueConsumerSpec previous, parseQueueConsumerSpec next with
  | some previous, some next => decide (previous.queue = next.queue ∧ previous.worker = next.worker)
  | _, _ => false

/-- `policyParams`: the policy is the one of the spec, with some settings of the dead-letter
queue. -/
def QueueConsumerSpec.fits (spec : QueueConsumerSpec) (policy : RetryPolicy) : Bool :=
  decide (policy.maxRetries = spec.maxRetries ∧
    policy.retryDelaySeconds = spec.retryDelaySeconds ∧
    (policy.deadLetterQueue.map fun q => q.queueId) = spec.deadLetterQueue.map v2QueueId)

/-- `json_extract(spec, '$.queue.resourceUid')`, as a queue id. -/
def specQueueId (spec : Json) : Option String :=
  (spec.textAt? ["queue", "resourceUid"]).map v2QueueId

/-- `json_extract(spec, '$.deadLetterQueue.resourceUid')`, as a queue id. -/
def specDeadLetterQueueId (spec : Json) : Option String :=
  (spec.textAt? ["deadLetterQueue", "resourceUid"]).map v2QueueId

/-! ### What custody asks of Resources and Operations -/

/-- `V2_QUEUE_CLAIM_SQL`, for an execution of the Operation under a lease. -/
def ownsV2QueueClaim (db : Db) (o : OperationRow) (token : Uuid) (now : Instant) : Bool :=
  decide (o.leaseToken = some token ∧ o.status = .reconciling ∧ o.dispatchPossible = true) &&
    (o.leaseUntilMs.any fun untilMs => decide (now < untilMs)) &&
    (db.resource o.resourceUid).any fun r =>
      decide (r.formUrl = queueConsumerFormUrl ∧ r.principal = o.principal ∧
        r.backendId = o.backendId ∧ r.targetKey = o.targetKey ∧ r.generation = o.generation ∧
        r.spec = o.acceptedSpec ∧ r.lastOperation = o.id ∧ r.busyOperation = some o.id ∧
        r.deletedAt = none)

/-- What `queue_v2_batch_execution_reserve_guard` asks of the consumer. -/
def servesConsumer (db : Db) (r : Reservation) : Bool :=
  db.resources.any fun consumer =>
    decide (uidText consumer.uid = r.consumerId ∧ consumer.formUrl = queueConsumerFormUrl ∧
      consumer.principal = r.principal ∧ consumer.space = r.space ∧
      consumer.targetKey = r.targetKey ∧ consumer.deletedAt = none ∧ consumer.phase = .idle ∧
      consumer.busyOperation = none ∧ consumer.generation = consumer.observedGeneration ∧
      specQueueId consumer.spec = some r.queueId ∧
      consumer.spec.textAt? ["worker", "resourceUid"] = some r.workerUid ∧
      consumer.spec.get? "maxConcurrency" = some (.num r.maxConcurrency)) &&
    consumer.observed.trueAt ["consumerAttached"] &&
    (db.operation consumer.lastOperation).any fun op =>
      decide (op.resourceUid = consumer.uid ∧ op.status = .succeeded ∧ op.effect = .complete ∧
        op.acceptedSpec = consumer.spec)

/-! ### The source of a notice -/

/-- The Resource is the consumer, and the Operation the create or update of it at the generation,
whose accepted spec names the queue and the dead-letter queue. -/
def namesTransfer (identity : Identity) (targetQueueId : String) (source : ResourceRow)
    (op : OperationRow) : Bool :=
  decide (uidText source.uid = identity.consumerId ∧ source.formUrl = queueConsumerFormUrl ∧
    op.resourceUid = source.uid ∧ op.generation = identity.generation ∧ op.action ≠ .delete ∧
    op.principal = source.principal ∧ op.targetKey = source.targetKey ∧
    some identity.queueId = specQueueId op.acceptedSpec ∧
    some targetQueueId = specDeadLetterQueueId op.acceptedSpec)

/-- The rows of the query that `wakeTransfers` makes for a notice, before its limit. -/
def sourceRows (db : Db) (identity : Identity) (targetQueueId : String) :
    List (ResourceRow × OperationRow) :=
  (db.resources.product db.operations).filter fun row =>
    namesTransfer identity targetQueueId row.1 row.2 &&
      decide (row.2.status = .succeeded ∧ row.2.effect = .complete)

/-- The source that `wakeTransfers` finds for a notice. -/
def noticeSource (db : Db) (n : Notice) : Option ResourceRow :=
  match (sourceRows db n.source n.targetQueueId).take 2 with
  | [row] => some row.1
  | _ => none

/-! ### The machine -/

/-- The Resources and Operations, and the queue. -/
structure Consumers where
  db : Db := {}
  host : Host := {}

namespace Consumers

variable (s : Consumers)

/-- `attached` and the last check of `run`: the custody row it reads at the end. -/
def completes (o : OperationRow) (spec : QueueConsumerSpec) (final : Tables) : Bool :=
  (final.custodyOf (v2QueueId spec.queue)).any fun c =>
    decide (c.consumerId = uidText o.resourceUid) &&
      if o.action = .delete then decide (c.state = .tombstone)
      else decide (c.state = .active) && spec.fits c.policy

/-- How `run` ends an execution: unknown, to be continued, or complete. -/
def runEnds (o : OperationRow) (final : Tables) (input : V2.Db.Settlement) : Bool :=
  match input.status with
  | .reconciling => true
  | .succeeded => decide (input.effect = .complete) &&
      (parseQueueConsumerSpec o.acceptedSpec).any fun spec => completes o spec final
  | _ => false

/-- What the form of a consumer makes sure of where the engine writes. -/
def permitsStore (finalRead : ℕ) : StoreAction → Bool
  | .insertCreate record form .. =>
      decide (form ≠ queueConsumerFormUrl) || (parseQueueConsumerSpec record.spec).isSome
  | .insertChange record .. =>
      (s.db.resource record.resourceUid).all fun r =>
        decide (r.formUrl ≠ queueConsumerFormUrl) ||
          if record.action = .update then validateQueueConsumerUpdate r.spec record.spec
          else decide (record.spec = r.spec)
  | .settle id _ input =>
      (s.db.operation id).all fun o =>
        (s.db.resource o.resourceUid).all fun r =>
          decide (r.formUrl ≠ queueConsumerFormUrl) || runEnds o (s.host.read finalRead) input
  | _ => true

/-- The calls that deliveries make: a claim is made for an execution that was reserved before.
The v1 custody of a consumer has no caller left, and the rest is `run`'s. -/
def permitsQueue : Action → Bool
  | .call c _ _ =>
    match c with
    | .claim input _ _ _ => input.reservation.any fun r =>
        s.host.tables.executions.any fun e => e.isOf r input.toIdentity
    | .reserve r servable => !servable || servesConsumer s.db r
    | .activateConsumer .. | .beginRetirement .. | .finishRetirement .. => false
    | .refuseUnsent .. | .refundUnsent .. | .attach .. | .beginRetiring .. | .reapRetired .. |
      .replace .. => false
    | _ => true
  | _ => true

/-- The call is a statement of `run`, for an Operation with this spec and policy that holds its
lease or not, and the custody row that it has read. -/
def runCalls (o : OperationRow) (spec : QueueConsumerSpec) (policy : RetryPolicy) (owns : Bool)
    (row : Option Custody) (c : Call) : Bool :=
  let consumerUid := uidText o.resourceUid
  -- the row of an update that changes the policy, or of a deletion
  let leaves (identity : Identity) (states : List CustodyState) : Bool := row.any fun c =>
    decide (c.toIdentity = identity ∧ c.consumerId = consumerUid ∧ c.state ∈ states ∧
      ¬ (o.action = .update ∧ c.state = .active ∧ c.policy = policy))
  match c with
  | .refuseUnsent uid owned | .refundUnsent uid owned =>
      decide (o.action ≠ .create ∧ uid = consumerUid ∧ owned = owns)
  | .attach queueId uid policy' owned _ =>
      decide (o.action = .create ∧ queueId = v2QueueId spec.queue ∧ uid = consumerUid ∧
        policy' = policy ∧ owned = owns)
  | .beginRetiring identity _ owned =>
      decide (o.action ≠ .create ∧ owned = owns) && leaves identity [.active]
  | .reapRetired identity _ limit _ _ _ owned =>
      decide (o.action ≠ .create ∧ limit = 32 ∧ owned = owns) &&
        leaves identity [.active, .retiring]
  | .replace identity replacement owned =>
      decide (o.action ≠ .create ∧ owned = owns ∧
        replacement = if o.action = .update then some policy else none) &&
        leaves identity [.active, .retiring]
  | _ => false

/-- The call is a statement of `run` for the Operation. -/
def runs (id token : Uuid) (policy : RetryPolicy) (rowRead : ℕ) (now : Instant) (c : Call) : Bool :=
  (s.db.operation id).any fun o =>
    (parseQueueConsumerSpec o.acceptedSpec).any fun spec =>
      (decide (o.action = .delete) || spec.fits policy) &&
        runCalls o spec policy (ownsV2QueueClaim s.db o token now)
          ((s.host.read rowRead).custodyOf (v2QueueId spec.queue)) c

/-- A batch of the engine, a call of a delivery, or a statement of `run`. -/
inductive Step where
  /-- A batch of the engine; where it ends an execution, with the last read of `run`. -/
  | store (a : StoreAction) (finalRead : ℕ)
  /-- A call of a delivery. -/
  | queue (a : Action)
  /-- A statement of `run`, under the lease of its Operation. -/
  | run (id token : Uuid) (policy : RetryPolicy) (rowRead : ℕ) (c : Call) (clocks : List Instant)
      (acknowledged : Bool)

/-- The machine. -/
def next (s : Consumers) : Step → Option Consumers
  | .store a finalRead =>
      if a.wellFormed s.db && s.permitsStore finalRead a then some { s with db := a.apply s.db }
      else none
  | .queue a =>
      if s.permitsQueue a then (queues.next s.host a).map fun host => { s with host } else none
  | .run id token policy rowRead c clocks acknowledged =>
      if s.runs id token policy rowRead (clocks.headD s.host.tables.now) c then
        (queues.next s.host (.call c clocks acknowledged)).map fun host => { s with host }
      else none

end Consumers

/-- The machine of all interleavings of the Operations of consumers and of deliveries. -/
def consumers : Machine Consumers Consumers.Step where
  init := {}
  next := Consumers.next

/-- The generation that a call of `run` installs, by the custody rows it has read. -/
def Call.installs (read : ℕ → Tables) : Call → Option ConsumerGeneration
  | .attach queueId consumerUid policy _ custodyRead =>
      some ⟨⟨queueId, consumerUid,
        (((read custodyRead).custodyOf queueId).map fun row => row.generation + 1).getD 1⟩, policy⟩
  | .replace identity (some policy) _ =>
      some ⟨⟨identity.queueId, identity.consumerId, identity.generation + 1⟩, policy⟩
  | _ => none

/-- The step installs no generation with a dead-letter queue, or one with the number of its
Operation's own, or one whose transfers an earlier Operation of that number already names. -/
def Consumers.aligned (s : Consumers) : Consumers.Step → Bool
  | .run id _ _ _ c _ _ =>
      (c.installs s.host.read).all fun value =>
        value.policy.deadLetterQueue.all fun target =>
          (s.db.operation id).any (fun o => decide (o.generation = value.generation)) ||
            (noticeSource s.db ⟨value.toIdentity, target.queueId, ""⟩).isSome
  | _ => true

end Takoserver.Queue
