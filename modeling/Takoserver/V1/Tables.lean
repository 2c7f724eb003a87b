import Takoserver.Lib.Table
import Takoserver.Json

/-!
# The tables of the Takoform v1 Host

The rows the store of `src/takoform/store.ts` works on: Resources, provider
mutation sagas and deferred operations (`migrations/0060`, `0062`), Resource
claims (`0020`), deletion attestations and provider effects (`0029`), execution
evidence (`0048`), replays and settled operations (`0002`).

Columns that a `CHECK` ties together are one field here, so that a row the
database would refuse cannot be built: a lease is a token with its end, a saga
is executed when it has a receipt, a claim is committed when it has no expiry,
and a terminal operation has its answer.
-/

namespace Takoserver.V1

/-- Milliseconds. -/
abbrev Instant := ℕ

/-- `253_402_300_799_999`: the expiry of a row that is kept without an end. -/
def repairHorizon : Instant := 253402300799999

/-- `OPERATION_TTL_MILLISECONDS`. -/
def operationTtl : ℕ := 7 * 24 * 60 * 60000

/-- `RESOURCE_CLAIM_RESERVATION_TTL_MILLISECONDS`. -/
def claimReservationTtl : ℕ := 5 * 60000

/-- `REPLAY_TTL_MILLISECONDS`. -/
def replayTtl : ℕ := 24 * 60 * 60000

/-- `kind` of an Operation. -/
inductive OperationKind where
  | apply
  | import
  | delete
  deriving DecidableEq

/-- Whether an execution is the first to cross the provider boundary. -/
inductive Mode where
  | initial
  | recovery
  deriving DecidableEq

/-- A Form, by its schema. -/
structure FormRef where
  apiVersion : String
  kind : String
  definitionVersion : String
  schemaDigest : String
  deriving DecidableEq

/-- Where a Resource is declared. -/
structure Address where
  tenantId : String
  space : String
  apiVersion : String
  kind : String
  name : String
  deriving DecidableEq

/-- `accepted_uid`, `accepted_generation` and `accepted_revision`: the incumbent a command
was accepted against. -/
structure Accepted where
  uid : String
  generation : String
  revision : String
  deriving DecidableEq

/-- A lease: its token, and the instant from which it no longer counts. -/
structure Lease where
  token : String
  leaseUntil : Instant
  deriving DecidableEq

/-! ### Resources -/

/-- One exact cross-resource reference, stored beside the declaring Resource. -/
structure StoredRelation where
  /-- The concrete place in the document, list positions included. -/
  pointer : String
  /-- The declared reference, with `*` for a list position. -/
  relation : String
  targetApiVersion : String
  targetKind : String
  targetName : String
  targetUid : String
  targetRevision : Option String
  targetFormRef : FormRef
  deriving DecidableEq

/-- `resource_json`: the members the store reads out of it, and the text of the rest. -/
structure Document where
  apiVersion : String
  kind : String
  space : String
  name : String
  uid : String
  generation : String
  revision : String
  formRef : FormRef
  spec : Json := .obj []
  /-- The text of `status` and the remaining members. -/
  content : String
  deriving DecidableEq

/-- `tf_resources`. -/
structure Resource where
  address : Address
  uid : String
  generation : String
  revision : String
  document : Document
  relations : List StoredRelation
  packageDigest : Option String
  implementationDigest : Option String
  deriving DecidableEq

/-! ### Provider mutation sagas -/

/-- `provider_outcome` of a saga. -/
inductive ProviderOutcome where
  | planned
  | running
  | indeterminate
  deriving DecidableEq

/-- `import_selection_json`: its text, and the native destination it names when its kind is
`provider`. -/
structure ImportSelection where
  text : String
  /-- `providerInstallationRef` and `nativeId`. -/
  destination : Option (String × String)
  deriving DecidableEq

/-- `tf_provider_mutation_sagas_selection_v1`. -/
structure Saga where
  /-- A ghost column: how many rows had been inserted before this one. -/
  serial : ℕ
  operationId : String
  operationKind : OperationKind
  replayKey : String
  fingerprint : String
  resourceUid : String
  target : Address
  accepted : Option Accepted
  authorityHeadDigest : Option String
  /-- `import_selection_protocol = 1`. -/
  importProtocol : Bool
  receiptJson : Option String := none
  lease : Option Lease := none
  executionStartedAt : Option Instant := none
  providerHandle : Option String := none
  providerOutcome : ProviderOutcome := .planned
  selectionJson : Option String := none
  selectionVerifiedLeaseToken : Option String := none
  importSelection : Option ImportSelection := none
  importSelectionVerifiedLeaseToken : Option String := none

/-! ### Deferred operations -/

/-- `phase`, with the `terminal_json` that exactly the terminal phases have. -/
inductive Phase where
  | pending
  | committing
  | succeeded (terminalJson : String)
  | failed (terminalJson : String)
  | cancelled (terminalJson : String)
  deriving DecidableEq

/-- `tf_deferred_operations_selection_v1`. -/
structure Operation where
  /-- A ghost column: how many rows had been inserted before this one. -/
  serial : ℕ
  id : String
  principalId : String
  operation : OperationKind
  fingerprint : String
  replayKey : String
  target : Address
  targetFormRef : FormRef
  accepted : Option Accepted
  resourceUid : String
  pollsRemaining : ℕ
  phase : Phase := .pending
  lease : Option Lease := none
  committedUid : Option String := none
  expiresAt : Instant
  deriving DecidableEq

/-! ### Claims -/

/-- A claim key: one that a Definition's constraint reserves (`exclusive_`, `claim_`,
`unique_pair_`), or one of the private `host-dependency:v1:` namespace. -/
inductive ClaimKey where
  | definition (key : String)
  /-- `edge:<target digest>:<edge digest>`. -/
  | edge (targetDigest edgeDigest : String)
  /-- `data:<set digest>:<index>:<chunk>`. -/
  | data (index : ℕ) (chunk : String)
  /-- `set:<manifest>`. -/
  | set (manifest : String)
  deriving DecidableEq

/-- `owner_operation_id`: a lease token (`lease_…`, `pmlease_…`) or an operation id
(`op_…`). -/
inductive Owner where
  | lease (token : String)
  | operation (id : String)
  deriving DecidableEq

/-- `holder_space`, `holder_api_version`, `holder_kind` and `holder_name`. -/
structure Holder where
  space : String
  apiVersion : String
  kind : String
  name : String
  deriving DecidableEq

/-- `tf_resource_claims`. -/
structure Claim where
  key : ClaimKey
  tenantId : String
  holder : Holder
  holderUid : String
  owner : Owner
  /-- `expires_at` of a reserved claim; `none` is `state = 'committed'`. -/
  expiresAt : Option Instant

/-! ### Attestations, effects and evidence -/

/-- `state` of an attestation. -/
inductive AttestationState where
  | live
  | pending
  | closed
  | cancelled
  deriving DecidableEq

/-- `tf_resource_deletion_attestations`: the incarnation of a Resource. -/
structure Attestation where
  address : Address
  resourceUid : String
  formRef : FormRef
  state : AttestationState

/-- `phase` of an effect. -/
inductive EffectPhase where
  | planned
  | dispatched
  | succeeded
  | cancelled
  deriving DecidableEq

/-- `tf_resource_provider_effects`; the event id is the effect id with the phase. -/
structure Effect where
  tenantId : String
  resourceUid : String
  effectId : String
  effectKind : OperationKind
  phase : EffectPhase
  operationMode : Mode
  deriving DecidableEq

/-- `action` of a piece of evidence. -/
inductive EvidenceAction where
  | create
  | update
  | delete
  deriving DecidableEq

/-- `tf_resource_execution_evidence`. -/
structure Evidence where
  tenantId : String
  resourceUid : String
  operationId : String
  sequence : ℕ
  action : EvidenceAction
  resourceGeneration : String
  resourceRevision : String

/-- `tf_replays`. -/
structure Replay where
  replayKey : String
  fingerprint : String
  status : ℕ
  resource : Option Document
  boundUid : Option String
  expiresAt : Instant

/-- `tf_operations`. -/
structure SettledOperation where
  id : String
  tenantId : String
  succeeded : Bool
  resource : Option Document
  expiresAt : Instant

/-- The tables of the store. -/
structure Tables where
  resources : List Resource := []
  sagas : List Saga := []
  operations : List Operation := []
  claims : List Claim := []
  attestations : List Attestation := []
  effects : List Effect := []
  evidence : List Evidence := []
  replays : List Replay := []
  settled : List SettledOperation := []
  /-- A ghost: how many sagas were ever inserted. -/
  sagaSerial : ℕ := 0
  /-- A ghost: how many deferred operations were ever inserted. -/
  operationSerial : ℕ := 0

/-! ### Keys and guards -/

/-- The tenant and the uid. -/
def Resource.tenantUid (r : Resource) : String × String := (r.address.tenantId, r.uid)

/-- The primary key. -/
def Attestation.tenantUid (a : Attestation) : String × String := (a.address.tenantId, a.resourceUid)

/-- The tenant and the uid. -/
def Evidence.tenantUid (e : Evidence) : String × String := (e.tenantId, e.resourceUid)

/-- The primary key. -/
def Effect.key (e : Effect) : String × String × String × EffectPhase :=
  (e.tenantId, e.resourceUid, e.effectId, e.phase)

/-- `token = ? AND until > ?`. -/
def Lease.isHeldBy (l : Lease) (token : String) (timestamp : Instant) : Bool :=
  l.token = token ∧ timestamp < l.leaseUntil

/-- `lease_token IS NULL OR lease_until <= ?`. -/
def leaseIsFree (lease : Option Lease) (timestamp : Instant) : Bool :=
  lease.all fun l => decide (l.leaseUntil ≤ timestamp)

/-- `tenant_id`, `operation_id` and `resource_uid`: how the executor names its saga. -/
structure SagaRef where
  tenantId : String
  operationId : String
  resourceUid : String
  deriving DecidableEq

namespace Saga

/-- `tenant_id = ? AND operation_id = ? AND resource_uid = ?`. -/
def named (r : Saga) (i : SagaRef) : Bool :=
  r.target.tenantId = i.tenantId ∧ r.operationId = i.operationId ∧ r.resourceUid = i.resourceUid

/-- `phase = 'planned' AND receipt_json IS NULL`. -/
def isPlanned (r : Saga) : Bool := r.receiptJson.isNone

/-- `execution_started_at IS NULL` in initial mode, `IS NOT NULL` in recovery. -/
def startedAs (r : Saga) : Mode → Bool
  | .initial => r.executionStartedAt.isNone
  | .recovery => r.executionStartedAt.isSome

/-- `phase = 'planned' AND receipt_json IS NULL AND execution_lease_token = ? AND
execution_lease_until > ?`: the saga takes the statements of this token now. -/
def accepts (r : Saga) (token : String) (timestamp : Instant) : Bool :=
  r.isPlanned && r.lease.any fun l => l.isHeldBy token timestamp

end Saga

namespace Claim

/-- `state = 'committed'`. -/
def isCommitted (c : Claim) : Bool := c.expiresAt.isNone

/-- `state = 'reserved'`. -/
def isReserved (c : Claim) : Bool := c.expiresAt.isSome

/-- `state = 'committed' OR expires_at > ?`. -/
def holds (c : Claim) (timestamp : Instant) : Bool :=
  c.expiresAt.all fun e => decide (timestamp < e)

/-- `state = 'reserved' AND expires_at <= ?`. -/
def isExpired (c : Claim) (timestamp : Instant) : Bool :=
  c.expiresAt.any fun e => decide (e ≤ timestamp)

/-- `claim_key >= ? AND claim_key < ?` over `resourceDependencyClaimRange`. -/
def isDependency (c : Claim) : Bool :=
  match c.key with
  | .definition _ => false
  | _ => true

/-- `claim_key >= ? AND claim_key < ?` over `resourceDependencyTargetClaimRange`. -/
def isEdgeTo (c : Claim) (targetDigest : String) : Bool :=
  match c.key with
  | .edge d _ => d = targetDigest
  | _ => false

/-- `owner_operation_id = ? AND tenant_id = ? AND holder_uid = ?`. -/
def ownedFor (c : Claim) (owner : Owner) (tenantId holderUid : String) : Bool :=
  c.owner = owner ∧ c.tenantId = tenantId ∧ c.holderUid = holderUid

theorem holds_iff {c : Claim} {timestamp : Instant} :
    c.holds timestamp = true ↔ ∀ e, c.expiresAt = some e → timestamp < e := by
  unfold holds
  cases c.expiresAt <;> simp

/-- A claim that holds later held before. -/
theorem holds_mono {c : Claim} {t t' : Instant} (hle : t ≤ t') (h : c.holds t' = true) :
    c.holds t = true := by
  rw [holds_iff] at h ⊢
  exact fun e he => lt_of_le_of_lt hle (h e he)

end Claim

theorem Saga.accepts_iff {r : Saga} {token : String} {timestamp : Instant} :
    r.accepts token timestamp = true ↔
      r.receiptJson = none ∧ ∃ l, r.lease = some l ∧ l.token = token ∧ timestamp < l.leaseUntil := by
  unfold Saga.accepts Saga.isPlanned Lease.isHeldBy
  cases r.lease <;> simp

/-- **One token at a time.**  A saga takes the statements of at most one lease token. -/
theorem Saga.accepts_unique {r : Saga} {token token' : String} {timestamp timestamp' : Instant}
    (h : r.accepts token timestamp = true) (h' : r.accepts token' timestamp' = true) :
    token = token' := by
  obtain ⟨-, l, hl, rfl, -⟩ := Saga.accepts_iff.mp h
  obtain ⟨-, _, hl', rfl, -⟩ := Saga.accepts_iff.mp h'
  rw [hl] at hl'
  injection hl' with h
  rw [h]

end Takoserver.V1
