import Takoserver.V2.Schema
import Takoserver.Lib.Machine

/-!
# The Takoform v2 store

`src/takoform-v2/store.ts`: every function that writes is one atomic batch (or one
statement), so it is one function on the database that either yields the next
database and what the caller is told, or aborts (`none`, a thrown `SqlError`).

An admission predicate is the SQL a trusted Form embeds in the acceptance
statement; the model keeps it as the condition on the database it denotes.  Other
domains take part in an acceptance batch too (the Host's terminal statement, the
Form-specific triggers of migrations 0076, 0080, 0083 and 0086 to 0088); all they can do to
the tables here is abort it, which is the flag `vetoed`.
-/

namespace Takoserver.V2

/-- What `sealPrivateInputs` returns. -/
structure SealedPrivateInputs where
  names : String
  comparisonKeyId : String
  comparisonTag : String
  transfer : Transfer

/-- What an acceptance inserts. -/
structure AcceptRecord where
  id : Uuid
  resourceUid : Uuid
  principal : String
  key : String
  fingerprint : String
  action : Action
  generation : ℕ
  acceptedAt : Instant
  retainUntil : Instant
  backendId : String
  targetKey : String
  spec : Json
  privateInputs : Option SealedPrivateInputs := none
  configuredPrivateInputs : Option ConfiguredPrivateInputs := none
  /-- Absent, or the exact configured ciphertext (or its absence) the caller read. -/
  expectedConfiguredPrivateInputs : Option (Option ConfiguredPrivateInputs) := none

/-- The answer of an acceptance batch that did not throw. -/
inductive Acceptance where
  | accepted
  | dependencyConflict
  | resourceBusy
  | conflict
  | referenceConflict
  deriving DecidableEq

/-- A trusted Form's acceptance predicate. -/
structure Admission where
  holds : Db → Bool
  /-- The refusal is `resource_busy`; otherwise it is `dependency_conflict`. -/
  busy : Bool := false

/-- How an unmet admission predicate is reported. -/
def Admission.conflictCode (admission : Admission) : Acceptance :=
  if admission.busy then .resourceBusy else .dependencyConflict

/-- `withReferenceGuard`: the captured target preimage is part of the predicate. -/
def withReferenceGuard (admission : Option Admission) : Option (Db → Bool) → Option Admission
  | none => admission
  | some guard =>
    match admission with
    | none => some { holds := guard }
    | some a => some { a with holds := fun db => a.holds db && guard db }

/-- An absent predicate holds. -/
def admits (db : Db) : Option Admission → Bool
  | none => true
  | some a => a.holds db

namespace Db

/-- The row `opInsert` writes. -/
def acceptedOperation (record : AcceptRecord) : OperationRow where
  id := record.id
  resourceUid := record.resourceUid
  principal := record.principal
  replayKey := record.key
  requestFingerprint := record.fingerprint
  action := record.action
  generation := record.generation
  status := .queued
  effect := .none
  createdAt := record.acceptedAt
  updatedAt := record.acceptedAt
  retainUntil := record.retainUntil
  backendId := record.backendId
  targetKey := record.targetKey
  backendKey := record.id
  acceptedSpec := record.spec
  privateInputsPresent := record.privateInputs.isSome

/-- `privateWrites`, under `tf_v2_private_inputs_acceptance`. -/
def privateWrites (db : Db) (record : AcceptRecord) : Option Db :=
  match record.privateInputs with
  | none => some db
  | some inputs =>
    match db.operation record.id with
    | none => some db
    | some o =>
      if o.privateInputsPresent then
        if o.status == .queued && db.privateInputs.all (fun row => row.operationId != record.id) then
          some { db with privateInputs := db.privateInputs ++
            [⟨record.id, inputs.names, inputs.comparisonKeyId, inputs.comparisonTag,
              some inputs.transfer⟩] }
        else none
      else some db

/-- `configuredPrivateWrites` of a create, under `tf_v2_configured_private_acceptance`. -/
def configuredPrivateWrites (db : Db) (record : AcceptRecord) : Option Db :=
  match record.configuredPrivateInputs with
  | none => some db
  | some inputs =>
    match db.operation record.id, db.resource record.resourceUid with
    | some o, some r =>
      if o.resourceUid == record.resourceUid && o.action == .create && o.status == .queued then
        if r.lastOperation == o.id && r.busyOperation == some o.id && r.generation == 1 &&
            o.generation == 1 && o.privateInputsPresent &&
            db.configuredPrivateInputs.all (fun row => row.1 != record.resourceUid) then
          some { db with
            configuredPrivateInputs := db.configuredPrivateInputs ++ [(record.resourceUid, inputs)] }
        else none
      else some db
    | _, _ => some db

/-- `referenceWrites`: the set, its references and the seal. -/
def referenceWrites (db : Db) (record : AcceptRecord) : Option (List Reference) → Option Db
  | none => some db
  | some references =>
    match db.operation record.id with
    | none => some db
    | some o =>
      if o.status == .queued then do
        let db ← db.insertReferenceSet record.id
        let db ← references.foldlM (fun db reference =>
          db.insertOperationReference record.id reference) db
        db.sealReferenceSet record.id
      else some db

/-- The row of a created Resource. -/
def createdResource (record : AcceptRecord) (form space name : String) (initialOutput : Json) :
    ResourceRow where
  uid := record.resourceUid
  principal := record.principal
  formUrl := form
  space := space
  name := name
  backendId := record.backendId
  targetKey := record.targetKey
  activeName := some name
  generation := 1
  phase := .pending
  spec := record.spec
  output := initialOutput
  lastOperation := record.id
  busyOperation := some record.id

/-- `insertCreate`. -/
def insertCreate (db : Db) (record : AcceptRecord) (form space name : String)
    (references : Option (List Reference)) (initialOutput : Json)
    (admission : Option Admission) (referenceGuard : Option (Db → Bool)) (vetoed : Bool) :
    Option (Db × Acceptance) :=
  let guarded := withReferenceGuard admission referenceGuard
  if admits db guarded then do
    let db ← db.insertResource (createdResource record form space name initialOutput)
    let db ← db.insertOperation (acceptedOperation record)
    let db ← db.privateWrites record
    let db ← db.configuredPrivateWrites record
    let db ← db.referenceWrites record references
    if vetoed then none else some (db, .accepted)
  else if vetoed then none
  else if (referenceGuard.map (· db)).getD true then
    some (db, (guarded.map Admission.conflictCode).getD .dependencyConflict)
  else some (db, .referenceConflict)

/-- A live Resource refers to this one. -/
def hasReferences (db : Db) (uid : Uuid) : Bool :=
  db.edges.any fun edge => edge.targetUid == uid &&
    match db.resource edge.referrerUid with
    | some referrer => referrer.deletedAt.isNone
    | none => false

/-- `pendingReferrersSql`: a live referrer's current Operation has not settled. -/
def pendingReferrers (db : Db) (uid : Uuid) : Bool :=
  db.edges.any fun edge => edge.targetUid == uid &&
    match db.resource edge.referrerUid with
    | none => false
    | some referrer => referrer.deletedAt.isNone &&
      match referrer.busyOperation.bind db.operation with
      | none => false
      | some o => referrer.lastOperation == o.id && referrer.generation == o.generation &&
          o.resourceUid == referrer.uid && o.principal == referrer.principal &&
          !o.status.terminal

/-- The condition on the configured ciphertext the caller read. -/
def configuredAsExpected (db : Db) (record : AcceptRecord) : Bool :=
  match record.expectedConfiguredPrivateInputs with
  | none => true
  | some none => db.configuredPrivateInputs.all fun row => row.1 != record.resourceUid
  | some (some inputs) => decide ((record.resourceUid, inputs) ∈ db.configuredPrivateInputs)

/-- The `WHERE` of the Resource update that accepts a change. -/
def changeGuard (db : Db) (record : AcceptRecord) (serialize : Bool)
    (admission : Option Admission) (r : ResourceRow) : Bool :=
  r.principal == record.principal && r.deletedAt.isNone &&
    r.generation + 1 == record.generation && r.busyOperation.isNone &&
    (record.action != .delete || !db.hasReferences record.resourceUid) &&
    (!serialize || !db.pendingReferrers record.resourceUid) &&
    admits db admission && db.configuredAsExpected record

/-- The Resource row an accepted change leaves. -/
def changedResource (r : ResourceRow) (record : AcceptRecord) : ResourceRow :=
  { r with
    generation := record.generation
    spec := record.spec
    phase := if record.action = .delete then .deleting else .pending
    lastOperation := record.id
    busyOperation := some record.id }

/-- `opInsertIfAccepted`, or for an update with configured inputs
`opInsertAfterConfiguredChange` and the history row adjacent to it.  The latter
writes a null id when the Resource is bound to another backend, and the trigger on
the history row then aborts the batch. -/
def insertChangeOperation (db : Db) (record : AcceptRecord) (changed : Bool) : Option Db :=
  match (if record.action = .update then record.configuredPrivateInputs else none) with
  | some inputs =>
    if changed then
      match db.resource record.resourceUid with
      | none => none
      | some r =>
        if r.principal == record.principal && r.generation == record.generation &&
            r.lastOperation == record.id && r.busyOperation == some record.id &&
            r.backendId == record.backendId && r.targetKey == record.targetKey &&
            r.deletedAt.isNone && record.privateInputs.isSome then
          (db.insertOperation (acceptedOperation record)).map fun db =>
            { db with
              operationConfiguredPrivateInputs :=
                db.operationConfiguredPrivateInputs ++ [(record.id, inputs)] }
        else none
    else some db
  | none =>
    match db.resource record.resourceUid with
    | none => some db
    | some r =>
      if r.lastOperation == record.id && r.busyOperation == some record.id &&
          r.generation == record.generation then
        db.insertOperation (acceptedOperation record)
      else some db

/-- The refusal of a change whose Resource update matched no row. -/
def changeRefusal (db : Db) (record : AcceptRecord) (serialize : Bool)
    (guarded : Option Admission) (referenceGuard : Option (Db → Bool)) : Acceptance :=
  if !(referenceGuard.map (· db)).getD true then .referenceConflict
  else if !admits db guarded then (guarded.map Admission.conflictCode).getD .conflict
  else if serialize && db.pendingReferrers record.resourceUid &&
      (match db.resource record.resourceUid with
        | some r => r.principal == record.principal && r.deletedAt.isNone &&
            r.generation + 1 == record.generation && r.busyOperation.isNone
        | none => false) then .dependencyConflict
  else .conflict

/-- `insertChange`. -/
def insertChange (db : Db) (record : AcceptRecord) (references : Option (List Reference))
    (serializeUpdatesWithPendingReferrers : Bool) (admission : Option Admission)
    (referenceGuard : Option (Db → Bool)) (vetoed : Bool) : Option (Db × Acceptance) :=
  let serialize := record.action == .update && serializeUpdatesWithPendingReferrers
  let guarded := withReferenceGuard admission referenceGuard
  let target := (db.resource record.resourceUid).filter (db.changeGuard record serialize guarded)
  do
    let db' ← match target with
      | some r => db.updateResource r (changedResource r record)
      | none => some db
    let db' ← db'.insertChangeOperation record target.isSome
    let db' ← db'.privateWrites record
    let db' ← db'.referenceWrites record references
    if vetoed then none
    else some (db', if target.isSome then .accepted
      else db.changeRefusal record serialize guarded referenceGuard)

/-! ### Running an accepted Operation -/

/-- `WHERE` of `nextCandidate` and of `claim`. -/
def claimable (nowMs : Instant) (o : OperationRow) : Bool :=
  decide (o.nextAttemptAtMs ≤ nowMs) &&
    (o.status == .queued ||
      ((o.status == .running || o.status == .reconciling) &&
        match o.leaseUntilMs with
        | none => true
        | some untilMs => decide (untilMs ≤ nowMs)))

/-- `ORDER BY updated_at, created_at, id`. -/
def candidateBefore (a b : OperationRow) : Bool :=
  decide (a.updatedAt < b.updatedAt) || (a.updatedAt == b.updatedAt &&
    (decide (a.createdAt < b.createdAt) || (a.createdAt == b.createdAt && decide (a.id ≤ b.id))))

/-- `nextCandidate`. -/
def nextCandidate (db : Db) (nowMs : Instant) : Option OperationRow :=
  (db.operations.filter (claimable nowMs)).foldl (fun best o =>
    match best with
    | none => some o
    | some b => if candidateBefore b o then some b else some o) none

/-- One row `UPDATE` by id: nothing where the row or its condition is missing. -/
def updateWhere (db : Db) (id : Uuid) (condition : OperationRow → Bool)
    (set : OperationRow → OperationRow) : Option (Db × Bool) :=
  match (db.operation id).filter condition with
  | none => some (db, false)
  | some o => (db.updateOperation o (set o)).map fun db => (db, true)

/-- `defer`.  It assigns no status, so no status trigger runs. -/
def defer (db : Db) (id : Uuid) (nowMs nextMs : Instant) : Db × Bool :=
  match (db.operation id).filter fun o => decide (o.nextAttemptAtMs ≤ nowMs) &&
      (o.status == .queued || o.status == .running || o.status == .reconciling) with
  | none => (db, false)
  | some o =>
    let deferred := { o with nextAttemptAtMs := nextMs }
    ({ db with operations := Table.put OperationRow.id deferred db.operations }, true)

/-- `claim`. -/
def claim (db : Db) (id token : Uuid) (nowMs untilMs : Instant) : Option (Db × Bool) :=
  db.updateWhere id (claimable nowMs) fun o =>
    { o with
      status := if o.dispatchPossible then .reconciling else .running
      effect := if o.dispatchPossible then .unknown else .none
      leaseToken := some token
      leaseUntilMs := some untilMs }

/-- `markDispatch`. -/
def markDispatch (db : Db) (id token : Uuid) (now : Instant) : Option (Db × Bool) :=
  db.updateWhere id (fun o => o.leaseToken == some token && o.status == .running) fun o =>
    { o with status := .reconciling, effect := .unknown, dispatchPossible := true, updatedAt := now }

/-- `ownsClaim`. -/
def ownsClaim (db : Db) (id token : Uuid) : Bool :=
  match db.operation id with
  | some o => o.leaseToken == some token
  | none => false

/-- `waitForInputs`. -/
def waitForInputs (db : Db) (id token : Uuid) (now : Instant) (names : String)
    (reason : InputRequiredReason) : Option (Db × Bool) :=
  db.updateWhere id (fun o => o.leaseToken == some token && o.status == .running &&
      !o.dispatchPossible && o.privateInputsPresent &&
      db.privateInputs.any (fun row => row.operationId == id)) fun o =>
    { o with
      status := .waitingInput
      updatedAt := now
      inputRequiredNames := some names
      inputRequiredReason := some reason
      leaseToken := none
      leaseUntilMs := none }

/-- `failUnverifiable`. -/
def failUnverifiable (db : Db) (id token : Uuid) (now retainUntil : Instant) :
    Option (Db × Bool) :=
  db.updateWhere id (fun o => o.leaseToken == some token && o.status == .running &&
      !o.dispatchPossible) fun o =>
    { o with
      status := .failed
      effect := .none
      updatedAt := now
      retainUntil := max o.retainUntil retainUntil
      errorCode := some "private_inputs_unverifiable"
      errorMessage := some "Private input comparison material is unavailable"
      leaseToken := none
      leaseUntilMs := none }

/-- The condition both statements of `replenish` read. -/
def awaitsInputs (o : OperationRow) : Bool :=
  o.status == .waitingInput && !o.dispatchPossible && o.leaseToken.isNone

/-- `replenish`: the new transfer, then the Operation back in the queue. -/
def replenish (db : Db) (id : Uuid) (inputs : SealedPrivateInputs) (now : Instant) :
    Option (Db × Bool) :=
  let waiting := ((db.operation id).filter awaitsInputs).isSome
  let held := waiting && db.privateInputs.any fun row => row.operationId == id
  let db' : Db := if waiting then { db with privateInputs := db.privateInputs.map fun row =>
    if row.operationId = id then { row with transfer := some inputs.transfer } else row } else db
  (db'.updateWhere id (fun o => awaitsInputs o && db'.privateInputs.any (fun row =>
      row.operationId == id &&
        row.transfer.map Transfer.ciphertext == some inputs.transfer.ciphertext)) fun o =>
    { o with
      status := .queued
      updatedAt := now
      nextAttemptAtMs := 0
      inputRequiredNames := none
      inputRequiredReason := none }).map fun result => (result.1, held && result.2)

/-- What a worker settles an Operation with. -/
structure Settlement where
  status : Status
  effect : Effect
  now : Instant
  retainUntil : Instant
  nextAttemptAtMs : Option Instant := none
  error : Option (String × String) := none
  observed : Option Json := none
  output : Option Json := none

/-- `settle`. -/
def settle (db : Db) (id token : Uuid) (input : Settlement) : Option (Db × Bool) :=
  db.updateWhere id (fun o => o.leaseToken == some token && o.status == .reconciling) fun o =>
    { o with
      status := input.status
      effect := input.effect
      updatedAt := input.now
      retainUntil := max o.retainUntil input.retainUntil
      nextAttemptAtMs := input.nextAttemptAtMs.getD o.nextAttemptAtMs
      errorCode := input.error.map Prod.fst
      errorMessage := input.error.map Prod.snd
      resultObserved := input.observed
      resultOutput := input.output
      leaseToken := none
      leaseUntilMs := none }

end Db

/-! ### The store as a machine -/

/-- One batch of the store, with everything its caller chooses. -/
inductive StoreAction where
  | insertCreate (record : AcceptRecord) (form space name : String)
      (references : Option (List Reference)) (initialOutput : Json)
      (admission : Option Admission) (referenceGuard : Option (Db → Bool)) (vetoed : Bool)
  | insertChange (record : AcceptRecord) (references : Option (List Reference))
      (serialize : Bool) (admission : Option Admission) (referenceGuard : Option (Db → Bool))
      (vetoed : Bool)
  | defer (id : Uuid) (nowMs nextMs : Instant)
  | claim (id token : Uuid) (nowMs untilMs : Instant)
  | markDispatch (id token : Uuid) (now : Instant)
  | waitForInputs (id token : Uuid) (now : Instant) (names : String) (reason : InputRequiredReason)
  | failUnverifiable (id token : Uuid) (now retainUntil : Instant)
  | replenish (id : Uuid) (inputs : SealedPrivateInputs) (now : Instant)
  | settle (id token : Uuid) (input : Db.Settlement)

/-- What the engine passes to an acceptance: a fresh Operation id, and for a create
generation one, for a change the other two actions.  A deletion publishes no references. -/
def StoreAction.wellFormed (db : Db) : StoreAction → Bool
  | .insertCreate record _ _ _ _ _ _ _ _ =>
      (db.operation record.id).isNone && record.action == .create && record.generation == 1
  | .insertChange record references _ _ _ _ =>
      (db.operation record.id).isNone && record.action != .create &&
        (record.action != .delete || references.isNone)
  | _ => true

/-- The effect of one batch; an aborted batch leaves the database alone. -/
def StoreAction.apply (db : Db) : StoreAction → Db
  | .insertCreate record form space name references initialOutput admission guard vetoed =>
      ((db.insertCreate record form space name references initialOutput admission guard
        vetoed).map Prod.fst).getD db
  | .insertChange record references serialize admission guard vetoed =>
      ((db.insertChange record references serialize admission guard vetoed).map Prod.fst).getD db
  | .defer id nowMs nextMs => (db.defer id nowMs nextMs).1
  | .claim id token nowMs untilMs => ((db.claim id token nowMs untilMs).map Prod.fst).getD db
  | .markDispatch id token now => ((db.markDispatch id token now).map Prod.fst).getD db
  | .waitForInputs id token now names reason =>
      ((db.waitForInputs id token now names reason).map Prod.fst).getD db
  | .failUnverifiable id token now retainUntil =>
      ((db.failUnverifiable id token now retainUntil).map Prod.fst).getD db
  | .replenish id inputs now => ((db.replenish id inputs now).map Prod.fst).getD db
  | .settle id token input => ((db.settle id token input).map Prod.fst).getD db

/-- The store: any order of well-formed batches, from the empty tables. -/
def store : Machine Db StoreAction where
  init := {}
  next db action := if action.wellFormed db then some (action.apply db) else none

end Takoserver.V2
