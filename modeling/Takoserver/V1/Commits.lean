import Takoserver.V1.Sagas

/-!
# The commit of a Resource mutation

`commitImmediateMutation` and `commitDeferredMutation` of `src/takoform/store.ts`:
one batch that checks its fences, concludes the provider effect, writes the
execution evidence, the Resource, the replay and the claims, settles the
operation, and retires the saga.

The engine commits three kinds of mutation: a write of what a provider answered,
the identity-preserving apply that changes nothing, and a delete.
-/

namespace Takoserver.V1

/-- What a mutation does to its Resource. -/
inductive Change where
  /-- A write of what a provider answered; its relations are those of the dependency set. -/
  | write (document : Document) (dependencies : DependencySet) (receiptJson : String)
      (operationMode : Mode) (claimKeys : List String)
  /-- An identical apply: `preserveClaims`, and no receipt. -/
  | unchanged (document : Document) (relations : List StoredRelation)
  | delete (receiptJson : String) (operationMode : Mode)

/-- `ResourceMutationCommit`. -/
structure Mutation where
  address : Address
  resourceUid : String
  expectedRevision : Option String
  packageDigest : Option String
  implementationDigest : Option String
  replayKey : String
  fingerprint : String
  status : ℕ
  change : Change

namespace Mutation

variable (m : Mutation)

/-- `mutation.resource`. -/
def document : Option Document :=
  match m.change with
  | .write document .. | .unchanged document _ => some document
  | .delete .. => none

/-- `mutation.relations`. -/
def relations : List StoredRelation :=
  match m.change with
  | .write _ dependencies .. => dependencies.relations
  | .unchanged _ relations => relations
  | .delete .. => []

/-- The serialized `mutation.providerReceipt`. -/
def receiptJson : Option String :=
  match m.change with
  | .write _ _ receiptJson .. | .delete receiptJson _ => some receiptJson
  | .unchanged .. => none

/-- `mutation.claimKeys`. -/
def claimKeys : List String :=
  match m.change with
  | .write _ _ _ _ claimKeys => claimKeys
  | _ => []

/-- `mutation.dependencySet`. -/
def dependencies : Option DependencySet :=
  match m.change with
  | .write _ dependencies .. => some dependencies
  | _ => none

def isDelete : Bool :=
  match m.change with
  | .delete .. => true
  | _ => false

/-- `identityNoOp`. -/
def isUnchanged : Bool :=
  match m.change with
  | .unchanged .. => true
  | _ => false

/-- The action its evidence records. -/
def action : EvidenceAction :=
  if m.isDelete then .delete else if m.expectedRevision.isNone then .create else .update

/-- `assertResourceMutationIdentity`. -/
def isIdentified : Bool :=
  (match m.document with
    | none => m.expectedRevision.isSome
    | some d =>
      decide (d.uid = m.resourceUid ∧ d.space = m.address.space ∧
        d.apiVersion = m.address.apiVersion ∧ d.kind = m.address.kind ∧ d.name = m.address.name ∧
        d.formRef.apiVersion = d.apiVersion ∧ d.formRef.kind = d.kind)) &&
    (!m.isUnchanged || decide (m.expectedRevision = m.document.map Document.revision))

/-! ### Fences -/

/-- The dependency guard: the operation's committed edges are exactly those of the set. -/
def dependencyGuard (D : Digests) (operationId : String) (t : Tables) : Bool :=
  m.dependencies.all fun s =>
    decide (s.operationId = operationId ∧ s.tenantId = m.address.tenantId ∧
      s.holderUid = m.resourceUid) &&
      t.ownsDependencies D (.operation operationId) m.address.tenantId m.resourceUid s
        Claim.isCommitted (fun _ => true)

/-- `deletionTombstoneFence`, and the fence of `providerEffectSql`. -/
def effectFence (operationId : String) (t : Tables) : Bool :=
  m.receiptJson.isNone ||
    (t.hasEffect m.address.tenantId m.resourceUid operationId
        (fun e => decide (e.phase = .dispatched)) &&
      (!m.isDelete || t.attests m.address.tenantId m.resourceUid fun a => decide (a.state = .pending)))

/-- The saga a mutation's receipt is stored in. -/
def namesSaga (operationId : String) (kind : OperationKind) (r : Saga) : Bool :=
  decide (r.operationId = operationId ∧ r.replayKey = m.replayKey ∧
    r.target.tenantId = m.address.tenantId ∧ r.fingerprint = m.fingerprint ∧
    r.resourceUid = m.resourceUid ∧ r.operationKind = kind ∧ r.receiptJson.isSome = true ∧
    r.receiptJson = m.receiptJson)

/-- The columns of a Resource row agree with its document, and with its attestation. -/
def rowIsExact (r : Resource) (a : Attestation) : Bool :=
  a.address = r.address ∧ a.resourceUid = r.uid ∧ r.document.apiVersion = r.address.apiVersion ∧
    r.document.kind = r.address.kind ∧ r.document.space = r.address.space ∧
    r.document.name = r.address.name ∧ r.document.uid = r.uid ∧
    r.document.generation = r.generation ∧ r.document.revision = r.revision ∧
    r.document.formRef = a.formRef

/-- `resourceExecutionPredecessorFence`. -/
def predecessorFence (fencesRevision : Bool) (t : Tables) : Bool :=
  if !m.isDelete && m.expectedRevision.isNone then
    (t.attests m.address.tenantId m.resourceUid fun a =>
      decide (a.address = m.address ∧ a.state = .live ∧ some a.formRef = m.document.map Document.formRef)) &&
      (t.resourceAt m.address).isNone
  else
    (t.resourceAt m.address).any fun r =>
      decide (r.uid = m.resourceUid) && (!fencesRevision || decide (some r.revision = m.expectedRevision)) &&
        (t.attestations.any fun a =>
          rowIsExact r a && (if m.isDelete then a.isOpen else decide (a.state = .live)) &&
            m.document.all fun d => decide (a.formRef = d.formRef)) &&
        (!m.isUnchanged || decide (some r.document = m.document ∧ r.relations = m.relations ∧
          r.packageDigest = m.packageDigest ∧ r.implementationDigest = m.implementationDigest))

/-- The fence of `resourceExecutionEvidenceSql`. -/
def evidenceFence (operationId : String) (fencesRevision : Bool) (t : Tables) : Bool :=
  (t.attests m.address.tenantId m.resourceUid fun a =>
    decide (a.address = m.address) && m.document.all fun d => decide (a.formRef = d.formRef)) &&
    !(t.evidence.any fun e =>
      decide (e.tenantId = m.address.tenantId ∧ e.operationId = operationId)) &&
    !(t.settled.any fun o => decide (o.id = operationId)) &&
    m.predecessorFence fencesRevision t

/-! ### Statements -/

/-- `COALESCE(MAX(previous.sequence), 0) + 1`. -/
def nextSequence (tenantUid : String × String) (evidence : List Evidence) : ℕ :=
  ((evidence.filter fun e => decide (e.tenantUid = tenantUid)).map Evidence.sequence).foldr max 0 + 1

/-- The version its evidence records: the one written, or the one that is deleted. -/
def version (t : Tables) : String × String :=
  match m.document with
  | some d => (d.generation, d.revision)
  | none => ((t.resourceAt m.address).elim ("", "") fun r => (r.generation, r.revision))

/-- The insert of `resourceExecutionEvidenceSql`, with its triggers: a create is the first row of
its Resource, and nothing follows a delete. -/
def recordEvidence (operationId : String) (t : Tables) : Option Tables :=
  if m.isUnchanged then some t
  else
    let tenantUid := (m.address.tenantId, m.resourceUid)
    let row : Evidence :=
      { tenantId := m.address.tenantId, resourceUid := m.resourceUid, operationId,
        sequence := nextSequence tenantUid t.evidence, action := m.action,
        resourceGeneration := (m.version t).1, resourceRevision := (m.version t).2 }
    if (decide (row.action = .create ∧ row.sequence ≠ 1)) ||
        t.evidence.any fun e => decide (e.tenantUid = tenantUid ∧ e.action = .delete) then none
    else some { t with evidence := t.evidence ++ [row] }

/-- The statements of `providerEffectSql`. -/
def concludeEffect (operationId : String) (kind : OperationKind) (t : Tables) : Tables :=
  match m.change with
  | .unchanged .. => t
  | .write _ _ _ operationMode _ | .delete _ operationMode =>
    insertEffect { tenantId := m.address.tenantId, resourceUid := m.resourceUid,
                   effectId := operationId, effectKind := kind, phase := .succeeded,
                   operationMode } t

/-- `deletionTombstoneStatements`: the attestation of a deletion closes when no attempt on the
incarnation is open. -/
def closeTombstone (operationId : String) (t : Tables) : Tables :=
  if m.isDelete &&
      t.hasEffect m.address.tenantId m.resourceUid operationId
        (fun e => decide (e.phase = .succeeded)) &&
      !(t.effects.any fun e =>
        decide (e.tenantId = m.address.tenantId ∧ e.resourceUid = m.resourceUid ∧
          (e.phase = .planned ∨ e.phase = .dispatched)) &&
          !t.hasEffect e.tenantId e.resourceUid e.effectId Effect.isTerminal) then
    let pending := fun a : Attestation =>
      decide (a.tenantUid = (m.address.tenantId, m.resourceUid) ∧ a.state = .pending)
    { t with attestations := Table.update pending (fun a => { a with state := .closed }) t.attestations }
  else t

/-- The row a write leaves. -/
def row (d : Document) : Resource :=
  { address := m.address, uid := d.uid, generation := d.generation, revision := d.revision,
    document := d, relations := m.relations, packageDigest := m.packageDigest,
    implementationDigest := m.implementationDigest }

/-- The statement on `tf_resources`: an insert where the command accepted no incumbent;
`current` is the further `WHERE` clause of the others. -/
def writeResource (creates : Bool) (current : Resource → Bool) (resources : List Resource) :
    List Resource :=
  let p := fun r : Resource => decide (r.address = m.address) && current r
  match m.document with
  | none => Table.delete p resources
  | some d =>
    if creates then resources ++ [m.row d] else Table.update p (fun _ => m.row d) resources

/-- `INSERT INTO tf_replays … ON CONFLICT (replay_key) DO UPDATE SET …`. -/
def writeReplay (timestamp : Instant) (replays : List Replay) : List Replay :=
  let row : Replay :=
    { replayKey := m.replayKey, fingerprint := m.fingerprint, status := m.status,
      resource := m.document, boundUid := m.document.map Document.uid,
      expiresAt := timestamp + replayTtl }
  if replays.any fun r => decide (r.replayKey = m.replayKey) then
    Table.put Replay.replayKey row replays
  else replays ++ [row]

/-- The statements on `tf_resource_claims`. -/
def writeClaims (claimOwner : Owner) (operationId : String) (claims : List Claim) : List Claim :=
  match m.change with
  | .unchanged .. => claims
  | .write _ _ _ _ claimKeys =>
    dependencyCommitStatements operationId m.address.tenantId m.resourceUid
      (claimCommitStatements claimOwner m.address.tenantId m.resourceUid claimKeys claims)
  | .delete .. =>
    dependencyDeleteStatements m.address.tenantId m.resourceUid
      (claimCommitStatements claimOwner m.address.tenantId m.resourceUid [] claims)

/-- `INSERT OR IGNORE INTO tf_operations … 'succeeded'`. -/
def settle (operationId : String) (timestamp : Instant) (settled : List SettledOperation) :
    List SettledOperation :=
  if settled.any fun o => decide (o.id = operationId) then settled
  else settled ++ [{ id := operationId, tenantId := m.address.tenantId, succeeded := true,
                     resource := m.document, expiresAt := timestamp + operationTtl }]

/-- The saga whose receipt was committed is retired. -/
def retireSaga (operationId : String) (t : Tables) : Option Tables :=
  match m.receiptJson with
  | none => some t
  | some receiptJson =>
    (deleteSaga (fun r => decide (r.operationId = operationId ∧
      r.target.tenantId = m.address.tenantId ∧ r.receiptJson = some receiptJson)) t).map Prod.snd

end Mutation

/-- The batch both commits share: its guards, then its statements in order.  `fence` is the
guard of its own kind, `creates` and `current` its statement on the Resource, and `finish` its
update of the deferred operation. -/
def commitStatements (D : Digests) (m : Mutation) (operationId : String) (kind : OperationKind)
    (claimOwner : Owner) (fencesRevision : Bool) (fence : Tables → Bool) (creates : Bool)
    (current : Resource → Bool) (finish : List Operation → List Operation) (timestamp : Instant)
    (t : Tables) : Option Tables :=
  if m.dependencyGuard D operationId t && fence t &&
      t.ownsClaims claimOwner m.address.tenantId m.resourceUid m.claimKeys &&
      m.effectFence operationId t && m.evidenceFence operationId fencesRevision t then
    (m.recordEvidence operationId
      (m.closeTombstone operationId (m.concludeEffect operationId kind t))).bind fun t =>
      m.retireSaga operationId
        { t with
          resources := m.writeResource creates current t.resources
          replays := m.writeReplay timestamp t.replays
          claims := m.writeClaims claimOwner operationId t.claims
          operations := finish t.operations
          settled := m.settle operationId timestamp t.settled }
  else none

/-! ### Immediate -/

/-- The incumbent clause of the saga fence of an immediate commit. -/
def Saga.incumbentIsCurrent (t : Tables) (r : Saga) : Bool :=
  match r.accepted with
  | none => (t.resourceAt r.target).isNone
  | some accepted =>
    (t.resourceAt r.target).any fun resource =>
      decide (resource.uid = accepted.uid ∧ resource.generation = accepted.generation ∧
        resource.revision = accepted.revision)

/-- `sagaFence` of `providerMutationCommitStatements`. -/
def Mutation.immediateSagaFence (m : Mutation) (operationId : String) (kind : OperationKind)
    (t : Tables) : Bool :=
  m.receiptJson.isNone ||
    t.sagas.any fun r =>
      m.namesSaga operationId kind r &&
        decide (r.target = m.address ∧ r.accepted.map Accepted.revision = m.expectedRevision) &&
        r.incumbentIsCurrent t

/-- `commitImmediateMutation`; `elsewhere` are its fences on deployments, Workflows and the
catalog authority. -/
def commitImmediateMutation (D : Digests) (m : Mutation) (operationId : String)
    (kind : OperationKind) (elsewhere : Bool) (timestamp : Instant) (t : Tables) : Option Tables :=
  if m.isIdentified && decide ((kind = .delete) ↔ m.isDelete = true) then
    commitStatements D m operationId kind (.operation operationId) true
      (fun t => m.immediateSagaFence operationId kind t && elsewhere) m.expectedRevision.isNone
      (fun r => decide (some r.revision = m.expectedRevision)) id timestamp t
  else none

/-! ### Deferred -/

/-- `operationFence`. -/
def Operation.isLeased (operation : Operation) (leaseToken : String) (o : Operation) : Bool :=
  decide (o.id = operation.id ∧ o.target.tenantId = operation.target.tenantId ∧
    o.principalId = operation.principalId ∧ o.phase = .committing) &&
    o.lease.any fun l => decide (l.token = leaseToken)

/-- `resourceFence` of `commitDeferredMutation`: a delete is not fenced by the revision. -/
def Operation.resourceFence (operation : Operation) (t : Tables) : Bool :=
  match operation.accepted with
  | none => (t.resourceAt operation.target).isNone
  | some accepted =>
    (t.resourceAt operation.target).any fun r =>
      decide (r.uid = accepted.uid ∧ r.generation = accepted.generation ∧
        (operation.operation ≠ .delete → r.revision = accepted.revision) ∧
        r.document.formRef = operation.targetFormRef)

/-- `providerSagaFence` of `commitDeferredMutation`. -/
def Mutation.deferredSagaFence (m : Mutation) (operation : Operation) (t : Tables) : Bool :=
  m.receiptJson.isNone || t.sagas.any (m.namesSaga operation.id operation.operation)

/-- The `WHERE` clause of the statements on the Resource of a deferred operation. -/
def Operation.targets (operation : Operation) (r : Resource) : Bool :=
  operation.accepted.any fun accepted =>
    decide (r.uid = accepted.uid ∧ r.generation = accepted.generation ∧
      (operation.operation ≠ .delete → r.revision = accepted.revision))

/-- The update that ends a deferred operation. -/
def Operation.succeed (operation : Operation) (leaseToken terminalJson : String)
    (committedUid : Option String) (timestamp : Instant) (operations : List Operation) :
    List Operation :=
  Table.update (operation.isLeased leaseToken)
    (fun o => { o with
      phase := .succeeded terminalJson
      committedUid
      lease := none
      expiresAt := timestamp + operationTtl }) operations

/-- `commitDeferredMutation`. -/
def commitDeferredMutation (D : Digests) (operation : Operation) (m : Mutation)
    (leaseToken terminalJson : String) (elsewhere : Bool) (timestamp : Instant) (t : Tables) :
    Option Tables :=
  if m.isIdentified &&
      decide (m.resourceUid = operation.resourceUid ∧ m.address = operation.target ∧
        (operation.operation = .delete ↔ m.isDelete = true)) &&
      m.document.all (fun d => decide (d.formRef = operation.targetFormRef)) then
    commitStatements D m operation.id operation.operation (.lease leaseToken)
      (decide (operation.operation ≠ .delete))
      (fun t => t.operations.any (operation.isLeased leaseToken) && operation.resourceFence t &&
        m.deferredSagaFence operation t && elsewhere)
      operation.accepted.isNone operation.targets
      (operation.succeed leaseToken terminalJson (m.document.map Document.uid) timestamp) timestamp t
  else none

end Takoserver.V1
