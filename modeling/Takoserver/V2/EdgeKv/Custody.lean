import Takoserver.Lib.Async
import Takoserver.Text
import Takoserver.V2.Worker

/-!
# Edge KV native custody

`createV2EdgeKvNativeCustody` of `src/takoform-v2/edge-kv-native-custody.ts` over the table of
`migrations/0085_v2_edge_kv_native_custody.sql`, with its `CHECK`s, unique indexes and triggers.
Each statement is one step; it may commit and its answer be lost.  A worker may stop between two
statements for good or for so long that its lease expires, and the clocks of the workers and of the
database read anything.

Everything else in the Host may make of the tables of Resources, Operations and references whatever
it likes between two statements: `Request.host`.
-/

namespace Takoserver.V2.EdgeKv

open Text (utf16Length sqlLength sha256Digest)

/-- The Form the custody is for. -/
def formUrl : String := "https://edge.forms.takoform.com/forms/EdgeKVNamespace/0.2.0/"

/-! ### Texts -/

/-- A text of bounded length. -/
def validText (value : String) (max : ℕ) : Bool :=
  decide (1 ≤ utf16Length value ∧ utf16Length value ≤ max)

/-- What a provider acknowledges with. -/
def receipt (value : String) : Bool := validText value 255

/-! ### Tables -/

/-- `tf_v2_edge_kv_native_custody`. -/
structure CustodyRow where
  operationId : Uuid
  resourceUid : Uuid
  action : V2.Action
  principal : String
  space : String
  backendKey : Uuid
  backendId : String
  targetKey : String
  generation : ℕ
  acceptedSpec : Json
  plannedTitle : String
  closureDigest : String
  sourceOperationId : Option Uuid
  nativeId : Option String
  grantLeaseToken : Uuid
  grantedAtMs : Instant
  acknowledgedReceipt : Option String := none
  confirmedReceipt : Option String := none

/-- The tables, and which process inserted the row of an Operation. -/
structure Tables where
  db : Db := {}
  custody : List CustodyRow := []
  /-- History. -/
  inserts : List (ℕ × Uuid) := []

/-- The `CHECK`s of the table. -/
def CustodyRow.check (r : CustodyRow) : Bool :=
  let length (max : ℕ) (s : String) := decide (1 ≤ sqlLength s ∧ sqlLength s ≤ max)
  decide (r.action ≠ .update) && decide (1 ≤ r.generation) && r.acceptedSpec == .obj [] &&
    length 512 r.plannedTitle && sha256Digest r.closureDigest && r.nativeId.all (length 255) &&
    r.acknowledgedReceipt.all (length 255) && r.confirmedReceipt.all (length 255) &&
    match r.action with
    | .create => r.sourceOperationId.isNone &&
        r.nativeId.isNone == r.acknowledgedReceipt.isNone &&
        (r.confirmedReceipt.isNone || r.acknowledgedReceipt.isSome)
    | _ => r.sourceOperationId.isSome && r.nativeId.isSome

/-- Two rows that a unique index does not let stand beside each other: one create for a Resource,
one native id and one planned title of a target. -/
def CustodyRow.collides (a b : CustodyRow) : Bool :=
  a.action == .create && b.action == .create &&
    (a.resourceUid == b.resourceUid ||
      a.targetKey == b.targetKey &&
        (a.nativeId.isSome && a.nativeId == b.nativeId || a.plannedTitle == b.plannedTitle))

/-- `tf_v2_edge_kv_native_monotonic` lets the update through. -/
def CustodyRow.monotonic (old new : CustodyRow) : Bool :=
  new.operationId == old.operationId && new.resourceUid == old.resourceUid &&
    new.action == old.action && new.principal == old.principal && new.space == old.space &&
    new.backendKey == old.backendKey && new.backendId == old.backendId &&
    new.targetKey == old.targetKey && new.generation == old.generation &&
    new.acceptedSpec == old.acceptedSpec && new.plannedTitle == old.plannedTitle &&
    new.closureDigest == old.closureDigest && new.sourceOperationId == old.sourceOperationId &&
    (old.nativeId.isNone || new.nativeId == old.nativeId) &&
    new.grantLeaseToken == old.grantLeaseToken && new.grantedAtMs == old.grantedAtMs &&
    (old.acknowledgedReceipt.isNone || new.acknowledgedReceipt == old.acknowledgedReceipt) &&
    (old.confirmedReceipt.isNone || new.confirmedReceipt == old.confirmedReceipt)

/-- A live Resource has an edge to the Resource. -/
def referenced (db : Db) (uid : Uuid) : Bool :=
  db.edges.any fun edge => edge.targetUid == uid &&
    (db.resource edge.referrerUid).any fun referrer => referrer.deletedAt.isNone

/-- `DB_LEASE`. -/
def dbLease (dbNow : Instant) : Instant := (dbNow / 1000 + 1) * 1000

/-- `CLAIM`: the Operation and the Resource of a live claim. -/
def claim (db : Db) (e : Execution) (nowMs dbNow : Instant) : Option (OperationRow × ResourceRow) :=
  match db.operation e.operationId with
  | none => none
  | some op =>
    match db.resource op.resourceUid with
    | none => none
    | some resource =>
      if op.resourceUid == e.resourceUid && op.principal == e.principal && op.action == e.action &&
          op.generation == e.generation && op.backendKey == e.backendKey &&
          op.backendId == e.backendId && op.targetKey == e.targetKey &&
          op.acceptedSpec == .obj [] && op.status == .reconciling && op.dispatchPossible &&
          op.leaseToken == some e.leaseToken &&
          op.leaseUntilMs.any (fun until_ => decide (nowMs < until_ ∧ dbLease dbNow < until_)) &&
          resource.principal == op.principal && resource.formUrl == e.form &&
          resource.space == e.space && resource.name == e.name &&
          resource.backendId == op.backendId && resource.targetKey == op.targetKey &&
          resource.generation == op.generation && resource.lastOperation == op.id &&
          resource.busyOperation == some op.id && resource.deletedAt.isNone &&
          resource.spec == .obj [] && (op.action != .delete || resource.phase == .deleting) then
        some (op, resource)
      else none

/-- The condition of `accepted`. -/
def accepted (db : Db) (e : Execution) : Bool :=
  (db.operation e.operationId).any fun op =>
    op.resourceUid == e.resourceUid && op.principal == e.principal && op.action == e.action &&
      op.generation == e.generation && op.backendKey == e.backendKey &&
      op.backendId == e.backendId && op.targetKey == e.targetKey && op.acceptedSpec == .obj [] &&
      (db.resource op.resourceUid).any fun resource =>
        resource.principal == e.principal && resource.space == e.space &&
          resource.name == e.name && resource.formUrl == e.form &&
          resource.backendId == op.backendId && resource.targetKey == op.targetKey

namespace Tables

variable (s : Tables)

/-- The custody of an Operation. -/
def row (operationId : Uuid) : Option CustodyRow :=
  Table.find CustodyRow.operationId s.custody operationId

/-- The source that `tf_v2_edge_kv_native_insert_guard` asks of a delete. -/
def hasSource (new : CustodyRow) : Bool :=
  s.custody.any fun source =>
    some source.operationId == new.sourceOperationId && source.resourceUid == new.resourceUid &&
      source.action == .create && source.principal == new.principal &&
      source.space == new.space && source.backendId == new.backendId &&
      source.targetKey == new.targetKey && decide (source.generation < new.generation) &&
      source.plannedTitle == new.plannedTitle && source.closureDigest == new.closureDigest &&
      source.nativeId == new.nativeId && source.confirmedReceipt.isSome

/-- `tf_v2_edge_kv_native_insert_guard` lets the row in. -/
def insertGuard (dbNow : Instant) (new : CustodyRow) : Bool :=
  (s.db.operation new.operationId).any fun op =>
    (s.db.resource op.resourceUid).any fun resource =>
      op.resourceUid == new.resourceUid && op.action == new.action && op.action != .update &&
        op.principal == new.principal && resource.principal == new.principal &&
        resource.space == new.space && resource.formUrl == formUrl &&
        op.backendKey == new.backendKey && op.backendId == new.backendId &&
        op.targetKey == new.targetKey && resource.backendId == new.backendId &&
        resource.targetKey == new.targetKey && op.generation == new.generation &&
        resource.generation == new.generation && op.acceptedSpec == new.acceptedSpec &&
        resource.spec == new.acceptedSpec && resource.lastOperation == op.id &&
        resource.busyOperation == some op.id && resource.deletedAt.isNone &&
        (new.action == .create || resource.phase == .deleting) && op.status == .reconciling &&
        op.dispatchPossible && op.leaseToken == some new.grantLeaseToken &&
        op.leaseUntilMs.any (fun until_ =>
          decide (new.grantedAtMs < until_ ∧ dbLease dbNow < until_)) &&
        (new.action == .create || !referenced s.db resource.uid && s.hasSource new) &&
        (new.action == .delete || new.sourceOperationId.isNone && new.nativeId.isNone) &&
        new.acknowledgedReceipt.isNone && new.confirmedReceipt.isNone

/-- `INSERT … ON CONFLICT(operation_id) DO NOTHING` of one row by process `n`: the rows changed,
and the tables; `none` where it aborts. -/
def insert (n : ℕ) (dbNow : Instant) (new : CustodyRow) : Option (ℕ × Tables) :=
  if s.insertGuard dbNow new && new.check then
    if s.custody.any fun r => r.operationId == new.operationId then some (0, s)
    else if s.custody.any fun r => r.collides new then none
    else some (1, { s with
      custody := s.custody ++ [new]
      inserts := s.inserts ++ [(n, new.operationId)] })
  else none

/-- `UPDATE` of the custody of an Operation where `p` holds of it: the rows changed, and the
tables; `none` where it aborts. -/
def update (operationId : Uuid) (p : CustodyRow → Bool) (f : CustodyRow → CustodyRow) :
    Option (ℕ × Tables) :=
  match s.row operationId with
  | none => some (0, s)
  | some old =>
    if p old then
      if old.monotonic (f old) && (f old).check &&
          s.custody.all (fun r => r.operationId == operationId || !r.collides (f old)) then
        some (1, { s with custody := Table.put CustodyRow.operationId (f old) s.custody })
      else none
    else some (0, s)

end Tables

/-! ### Calls -/

/-- `V2EdgeKvCreateIntent`. -/
structure CreateIntent where
  execution : Execution
  plannedTitle : String
  closureDigest : String

/-- `V2EdgeKvConfirmedIdentity`. -/
structure ConfirmedIdentity where
  nativeId : String
  plannedTitle : String
  closureDigest : String
  sourceOperationId : Uuid
  sourceGeneration : ℕ
  deriving DecidableEq

/-- A statement, or a reading of the worker's clock. -/
inductive Call where
  | time
  | row (operationId : Uuid)
  | current (e : Execution) (nowMs : Instant)
  | accepted (e : Execution)
  | insertCreate (e : Execution) (plannedTitle closureDigest : String) (nowMs : Instant)
  | acknowledgeCreate (input : CreateIntent) (nativeId receipt : String)
  | confirmCreate (input : CreateIntent) (nativeId receipt : String) (nowMs : Instant)
  | source (e : Execution)
  | freeSource (e : Execution)
  | insertDelete (e : Execution) (expected : ConfirmedIdentity) (nowMs : Instant)
  | acknowledgeDelete (e : Execution) (receipt : String)
  | confirmAbsent (e : Execution) (receipt : String) (nowMs : Instant)
  /-- The rest of the Host writes its tables. -/
  | host (db : Db)

/-- What a statement gives back. -/
abbrev Call.Answer : Call → Type
  | .time => Option Instant
  | .row _ | .source _ | .freeSource _ => Option CustodyRow
  | .current _ _ | .accepted _ => Bool
  | .insertCreate _ _ _ _ | .acknowledgeCreate _ _ _ | .confirmCreate _ _ _ _
  | .insertDelete _ _ _ | .acknowledgeDelete _ _ | .confirmAbsent _ _ _ => ℕ
  | .host _ => Unit

/-- What a step reads from outside. -/
structure Outside where
  /-- The worker's clock, where it is a safe integer and not negative. -/
  time : Option Instant := none
  /-- The clock of the database. -/
  dbNow : Instant := 0
  /-- The statement commits, and its answer is lost. -/
  lost : Bool := false

/-- The custody row of an Operation's execution: the columns that every update compares. -/
def CustodyRow.isOf (r : CustodyRow) (e : Execution) : Bool :=
  r.resourceUid == e.resourceUid && r.principal == e.principal && r.space == e.space &&
    r.backendKey == e.backendKey && r.backendId == e.backendId && r.targetKey == e.targetKey &&
    r.generation == e.generation

/-- A confirmed create that an Operation of a Resource may build on. -/
def CustodyRow.sourceOf (r : CustodyRow) (e : Execution) : Bool :=
  r.resourceUid == e.resourceUid && r.action == .create && r.principal == e.principal &&
    r.space == e.space && r.backendId == e.backendId && r.targetKey == e.targetKey &&
    decide (r.generation < e.generation) && r.nativeId.isSome && r.confirmedReceipt.isSome

namespace Tables

variable (s : Tables) (n : ℕ) (dbNow : Instant)

/-- The `INSERT … SELECT` of `grantCreate`. -/
def insertCreate (e : Execution) (plannedTitle closureDigest : String) (nowMs : Instant) :
    Option (ℕ × Tables) :=
  match claim s.db e nowMs dbNow with
  | none => some (0, s)
  | some (op, resource) =>
    s.insert n dbNow
      { operationId := op.id, resourceUid := resource.uid, action := op.action
        principal := op.principal, space := resource.space, backendKey := op.backendKey
        backendId := op.backendId, targetKey := op.targetKey, generation := op.generation
        acceptedSpec := op.acceptedSpec, plannedTitle, closureDigest
        sourceOperationId := none, nativeId := none
        grantLeaseToken := op.leaseToken.getD 0, grantedAtMs := dbNow }

/-- The `UPDATE` of `acknowledgeCreate`. -/
def acknowledgeCreate (input : CreateIntent) (nativeId receipt : String) : Option (ℕ × Tables) :=
  s.update input.execution.operationId
    (fun r => r.action == .create && r.isOf input.execution && r.acceptedSpec == .obj [] &&
      r.plannedTitle == input.plannedTitle && r.closureDigest == input.closureDigest &&
      r.nativeId.isNone && r.acknowledgedReceipt.isNone)
    fun r => { r with nativeId := some nativeId, acknowledgedReceipt := some receipt }

/-- The `UPDATE` of `confirmCreate`. -/
def confirmCreate (input : CreateIntent) (nativeId receipt : String) (nowMs : Instant) :
    Option (ℕ × Tables) :=
  s.update input.execution.operationId
    (fun r => r.action == .create && r.isOf input.execution &&
      r.plannedTitle == input.plannedTitle && r.closureDigest == input.closureDigest &&
      r.nativeId == some nativeId && r.acknowledgedReceipt.isSome && r.confirmedReceipt.isNone &&
      (claim s.db input.execution nowMs dbNow).isSome)
    fun r => { r with confirmedReceipt := some receipt }

/-- The `SELECT` of `prepareDelete`. -/
def freeSource (e : Execution) : Option CustodyRow :=
  s.custody.find? fun r => r.sourceOf e && !referenced s.db r.resourceUid

/-- The `INSERT … SELECT` of `grantDelete`. -/
def insertDelete (e : Execution) (expected : ConfirmedIdentity) (nowMs : Instant) :
    Option (ℕ × Tables) :=
  match claim s.db e nowMs dbNow with
  | none => some (0, s)
  | some (op, resource) =>
    let sources := s.custody.find? fun r =>
      r.resourceUid == resource.uid && r.action == .create && r.principal == op.principal &&
        r.space == resource.space && r.backendId == op.backendId && r.targetKey == op.targetKey &&
        decide (r.generation < op.generation) && r.nativeId == some expected.nativeId &&
        r.confirmedReceipt.isSome && r.operationId == expected.sourceOperationId &&
        r.generation == expected.sourceGeneration && r.plannedTitle == expected.plannedTitle &&
        r.closureDigest == expected.closureDigest && !referenced s.db resource.uid
    match sources with
    | none => some (0, s)
    | some source =>
      s.insert n dbNow
        { operationId := op.id, resourceUid := resource.uid, action := op.action
          principal := op.principal, space := resource.space, backendKey := op.backendKey
          backendId := op.backendId, targetKey := op.targetKey, generation := op.generation
          acceptedSpec := op.acceptedSpec, plannedTitle := source.plannedTitle
          closureDigest := source.closureDigest, sourceOperationId := some source.operationId
          nativeId := source.nativeId, grantLeaseToken := op.leaseToken.getD 0
          grantedAtMs := dbNow }

/-- The `UPDATE` of `acknowledgeDelete`. -/
def acknowledgeDelete (e : Execution) (receipt : String) : Option (ℕ × Tables) :=
  s.update e.operationId
    (fun r => r.action == .delete && r.isOf e && r.acknowledgedReceipt.isNone)
    fun r => { r with acknowledgedReceipt := some receipt }

/-- The `UPDATE` of `confirmAbsent`. -/
def confirmAbsent (e : Execution) (receipt : String) (nowMs : Instant) : Option (ℕ × Tables) :=
  s.update e.operationId
    (fun r => r.action == .delete && r.isOf e && r.confirmedReceipt.isNone &&
      !referenced s.db r.resourceUid && (claim s.db e nowMs dbNow).isSome)
    fun r => { r with confirmedReceipt := some receipt }

end Tables

/-- A statement answers, or aborts and leaves the tables. -/
def orThrow {α : Type} (s : Tables) : Option (α × Tables) → Except Unit α × Tables
  | some (a, s') => (.ok a, s')
  | none => (.error (), s)

/-- What a call does. -/
def exec (n : ℕ) (w : Outside) (s : Tables) : (c : Call) → Except Unit c.Answer × Tables
  | .time => (.ok w.time, s)
  | .row id => (.ok (s.row id), s)
  | .current e nowMs => (.ok (claim s.db e nowMs w.dbNow).isSome, s)
  | .accepted e => (.ok (accepted s.db e), s)
  | .insertCreate e title closure nowMs => orThrow s (s.insertCreate n w.dbNow e title closure nowMs)
  | .acknowledgeCreate input nativeId ack => orThrow s (s.acknowledgeCreate input nativeId ack)
  | .confirmCreate input nativeId proof nowMs =>
      orThrow s (s.confirmCreate w.dbNow input nativeId proof nowMs)
  | .source e => (.ok (s.custody.find? fun r => r.sourceOf e), s)
  | .freeSource e => (.ok (s.freeSource e), s)
  | .insertDelete e expected nowMs => orThrow s (s.insertDelete n w.dbNow e expected nowMs)
  | .acknowledgeDelete e ack => orThrow s (s.acknowledgeDelete e ack)
  | .confirmAbsent e proof nowMs => orThrow s (s.confirmAbsent w.dbNow e proof nowMs)
  | .host db => (.ok (), { s with db })

/-- One call in one circumstance. -/
def runs : Runs Call Call.Answer Unit Tables Outside := fun n c w s =>
  some (if w.lost then .error () else (exec n w s c).1, (exec n w s c).2)

/-! ### The custody -/

/-- A call of the custody. -/
abbrev Program := Async Call Call.Answer Unit

/-- One statement. -/
def ask (c : Call) : Program c.Answer := .call c

/-- What `grantCreate` answers. -/
inductive CreateGrant where
  | granted
  | alreadyGranted
  | conflict

/-- `V2EdgeKvCreateInspection`. -/
inductive CreateInspection where
  | neverGranted
  | sent
  | conflict
  | acknowledged (nativeId receipt : String)
  | confirmed (nativeId receipt : String)

/-- `V2EdgeKvDeleteGrant`. -/
inductive DeleteGrant where
  | granted (identity : ConfirmedIdentity)
  | alreadyGranted (identity : ConfirmedIdentity)
  | conflict

/-- `V2EdgeKvDeleteInspection`. -/
inductive DeleteInspection where
  | neverGranted
  | sent
  | conflict
  | confirmedAbsent (receipt : String)

/-- `capture`: the execution is one of this Form, with an empty spec. -/
def captured (e : Execution) : Bool := e.form == formUrl && e.spec == .obj []

/-- The checks of what is to be created. -/
def validIntent (input : CreateIntent) : Bool :=
  validText input.plannedTitle 512 && sha256Digest input.closureDigest

/-- `same`. -/
def CustodyRow.same (r : CustodyRow) (e : Execution) : Bool :=
  r.operationId == e.operationId && r.resourceUid == e.resourceUid && r.action == e.action &&
    r.principal == e.principal && r.space == e.space && r.backendKey == e.backendKey &&
    r.backendId == e.backendId && r.targetKey == e.targetKey && r.generation == e.generation &&
    r.acceptedSpec == e.spec

/-- `same`, and the intent's title and closure. -/
def CustodyRow.sameIntent (r : CustodyRow) (input : CreateIntent) : Bool :=
  r.same input.execution && r.plannedTitle == input.plannedTitle &&
    r.closureDigest == input.closureDigest

/-- `confirmed`; an empty text is none. -/
def confirmed (r : CustodyRow) : Option ConfirmedIdentity :=
  match r.action, r.nativeId.filter (· ≠ ""), r.confirmedReceipt.filter (· ≠ "") with
  | .create, some nativeId, some _ =>
      some ⟨nativeId, r.plannedTitle, r.closureDigest, r.operationId, r.generation⟩
  | _, _, _ => none

/-- `custodyRow`: the generation is a safe integer. -/
def custodyRow (value : Option CustodyRow) : Program (Option CustodyRow) :=
  if value.all fun r => decide (r.generation ≤ 2 ^ 53 - 1) then pure value else throw ()

/-- The row of an Operation. -/
def row (operationId : Uuid) : Program (Option CustodyRow) := do
  custodyRow (← ask (.row operationId))

/-- The lease of the execution, at the clock. -/
def current (e : Execution) : Program Bool := do
  match ← ask .time with
  | none => return false
  | some nowMs => ask (.current e nowMs)

/-- `grantCreate`: the one permission to create. -/
def grantCreate (input : CreateIntent) : Program CreateGrant := do
  let e := input.execution
  if !captured e || e.action ≠ .create || !validIntent input then return .conflict
  match ← ask .time with
  | none => return .conflict
  | some nowMs =>
    let changes ← ask (.insertCreate e input.plannedTitle input.closureDigest nowMs)
    if changes = 1 then
      return if ← current e then .granted else .conflict
    if !(← current e) then return .conflict
    let prior ← row e.operationId
    return if prior.any fun prior => prior.sameIntent input && prior.action == .create then
      .alreadyGranted else .conflict

/-- `inspectCreate`: how far the creation has come. -/
def inspectCreate (input : CreateIntent) : Program CreateInspection := do
  let e := input.execution
  if !captured e || e.action ≠ .create || !validIntent input then return .conflict
  if !(← ask (.accepted e)) then return .conflict
  match ← row e.operationId with
  | none => return .neverGranted
  | some prior =>
    if !prior.sameIntent input then return .conflict
    return match prior.nativeId.filter (· ≠ ""), prior.confirmedReceipt.filter (· ≠ ""),
        prior.acknowledgedReceipt.filter (· ≠ "") with
      | some nativeId, some proof, _ => .confirmed nativeId proof
      | some nativeId, none, some ack => .acknowledged nativeId ack
      | _, _, _ => .sent

/-- `acknowledgeCreate`: the provider has named what it made. -/
def acknowledgeCreate (input : CreateIntent) (nativeId ack : String) : Program Bool := do
  let e := input.execution
  if !captured e || e.action ≠ .create || !validIntent input || !validText nativeId 255 ||
      !receipt ack then return false
  if !(← ask (.accepted e)) then return false
  let changes ← ask (.acknowledgeCreate input nativeId ack)
  if changes = 1 then return true
  let prior ← row e.operationId
  return prior.any fun prior => prior.sameIntent input && prior.nativeId == some nativeId &&
    prior.acknowledgedReceipt == some ack

/-- `confirmCreate`: what was made is there. -/
def confirmCreate (input : CreateIntent) (nativeId proof : String) : Program Bool := do
  let e := input.execution
  if !captured e || e.action ≠ .create || !validIntent input || !validText nativeId 255 ||
      !receipt proof then return false
  if !(← current e) then return false
  let nowMs ← ask .time
  let changes ← ask (.confirmCreate input nativeId proof (nowMs.getD 0))
  if changes = 1 then return true
  let prior ← row e.operationId
  return prior.any fun prior => prior.sameIntent input && prior.nativeId == some nativeId &&
    prior.acknowledgedReceipt.isSome && prior.confirmedReceipt == some proof

/-- `confirmedForUpdate`: the identity an update may touch. -/
def confirmedForUpdate (e : Execution) : Program (Option ConfirmedIdentity) := do
  if !captured e || e.action ≠ .update then return none
  if !(← current e) then return none
  match ← custodyRow (← ask (.source e)) with
  | none => return none
  | some prior =>
    if !(← current e) then return none
    return confirmed prior

/-- `prepareDelete`: the identity a deletion will remove. -/
def prepareDelete (e : Execution) : Program (Option ConfirmedIdentity) := do
  if !captured e || e.action ≠ .delete then return none
  if !(← current e) then return none
  match ← custodyRow (← ask (.freeSource e)) with
  | none => return none
  | some prior =>
    if !(← current e) then return none
    return confirmed prior

/-- What `grantDelete` answers of the two rows that it reads back. -/
def deleteGrant (changes : ℕ) (prior source : CustodyRow) (expected : ConfirmedIdentity) :
    DeleteGrant :=
  match confirmed source with
  | none => .conflict
  | some identity =>
    if source.resourceUid == prior.resourceUid && source.principal == prior.principal &&
        source.space == prior.space && source.backendId == prior.backendId &&
        source.targetKey == prior.targetKey && some identity.nativeId == prior.nativeId &&
        identity.plannedTitle == prior.plannedTitle &&
        identity.closureDigest == prior.closureDigest && decide (identity = expected) then
      if changes = 1 then .granted identity else .alreadyGranted identity
    else .conflict

/-- `grantDelete`: the one permission to delete. -/
def grantDelete (e : Execution) (expected : ConfirmedIdentity) : Program DeleteGrant := do
  if !captured e || e.action ≠ .delete || !validText expected.nativeId 255 ||
      !validText expected.plannedTitle 512 || !sha256Digest expected.closureDigest ||
      !decide (1 ≤ expected.sourceGeneration ∧ expected.sourceGeneration ≤ 2 ^ 53 - 1) then
    return .conflict
  match ← ask .time with
  | none => return .conflict
  | some nowMs =>
    let changes ← ask (.insertDelete e expected nowMs)
    if !(← current e) then return .conflict
    match ← row e.operationId with
    | none => return .conflict
    | some prior =>
      if !prior.same e || prior.action ≠ .delete then return .conflict
      match prior.sourceOperationId with
      | none => return .conflict
      | some sourceId =>
        match ← row sourceId with
        | none => return .conflict
        | some source => return deleteGrant changes prior source expected

/-- `inspectDelete`: how far the deletion has come. -/
def inspectDelete (e : Execution) : Program DeleteInspection := do
  if !captured e || e.action ≠ .delete then return .conflict
  if !(← ask (.accepted e)) then return .conflict
  match ← row e.operationId with
  | none => return .neverGranted
  | some prior =>
    if !prior.same e || prior.action ≠ .delete then return .conflict
    return match prior.confirmedReceipt.filter (· ≠ "") with
      | some proof => .confirmedAbsent proof
      | none => .sent

/-- `acknowledgeDelete`: the provider has taken the deletion. -/
def acknowledgeDelete (e : Execution) (ack : String) : Program Bool := do
  if !captured e || e.action ≠ .delete || !receipt ack then return false
  if !(← ask (.accepted e)) then return false
  let changes ← ask (.acknowledgeDelete e ack)
  if changes = 1 then return true
  let prior ← row e.operationId
  return prior.any fun prior => prior.same e && prior.acknowledgedReceipt == some ack

/-- `confirmAbsent`: what was deleted is gone. -/
def confirmAbsent (e : Execution) (proof : String) : Program Bool := do
  if !captured e || e.action ≠ .delete || !receipt proof then return false
  if !(← current e) then return false
  let nowMs ← ask .time
  let changes ← ask (.confirmAbsent e proof (nowMs.getD 0))
  if changes = 1 then return true
  let prior ← row e.operationId
  return prior.any fun prior => prior.same e && prior.confirmedReceipt == some proof

/-- A call of the custody, or a write of the rest of the Host. -/
inductive Request where
  | grantCreate (input : CreateIntent)
  | inspectCreate (input : CreateIntent)
  | acknowledgeCreate (input : CreateIntent) (nativeId ack : String)
  | confirmCreate (input : CreateIntent) (nativeId proof : String)
  | confirmedForUpdate (e : Execution)
  | prepareDelete (e : Execution)
  | grantDelete (e : Execution) (expected : ConfirmedIdentity)
  | inspectDelete (e : Execution)
  | acknowledgeDelete (e : Execution) (ack : String)
  | confirmAbsent (e : Execution) (proof : String)
  | host (db : Db)

/-- What a call answers, with what it was asked. -/
inductive Answer where
  | createGrant (input : CreateIntent) (grant : CreateGrant)
  | createInspection (input : CreateIntent) (inspection : CreateInspection)
  | acknowledged (input : CreateIntent) (nativeId ack : String) (done : Bool)
  | confirmed (input : CreateIntent) (nativeId proof : String) (done : Bool)
  | forUpdate (e : Execution) (identity : Option ConfirmedIdentity)
  | prepared (e : Execution) (identity : Option ConfirmedIdentity)
  | deleteGrant (e : Execution) (grant : DeleteGrant)
  | deleteInspection (e : Execution) (inspection : DeleteInspection)
  | deleteAcknowledged (e : Execution) (ack : String) (done : Bool)
  | absent (e : Execution) (proof : String) (done : Bool)
  | hosted

/-- The program of a request. -/
def Request.body : Request → Program Answer
  | .grantCreate input => return .createGrant input (← EdgeKv.grantCreate input)
  | .inspectCreate input => return .createInspection input (← EdgeKv.inspectCreate input)
  | .acknowledgeCreate input nativeId ack =>
      return .acknowledged input nativeId ack (← EdgeKv.acknowledgeCreate input nativeId ack)
  | .confirmCreate input nativeId proof =>
      return .confirmed input nativeId proof (← EdgeKv.confirmCreate input nativeId proof)
  | .confirmedForUpdate e => return .forUpdate e (← EdgeKv.confirmedForUpdate e)
  | .prepareDelete e => return .prepared e (← EdgeKv.prepareDelete e)
  | .grantDelete e expected => return .deleteGrant e (← EdgeKv.grantDelete e expected)
  | .inspectDelete e => return .deleteInspection e (← EdgeKv.inspectDelete e)
  | .acknowledgeDelete e ack => return .deleteAcknowledged e ack (← EdgeKv.acknowledgeDelete e ack)
  | .confirmAbsent e proof => return .absent e proof (← EdgeKv.confirmAbsent e proof)
  | .host db => do
      ask (.host db)
      return .hosted

/-- The machine of all interleavings. -/
def custody : Machine (Pool Tables (Program Answer)) (PoolAction Request Outside) :=
  pool runs Request.body {}

end Takoserver.V2.EdgeKv
