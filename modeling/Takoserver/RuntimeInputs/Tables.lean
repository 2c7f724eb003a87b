import Takoserver.Lib.Async
import Takoserver.RuntimeInputs.Values
import Takoserver.V1.Tables

/-!
# The table of runtime input preparations

`worker_runtime_input_preparations` of the migrations 0037, 0042 and 0065, with its keys and its
`CHECK`s, and every statement that `src/runtime-input-preparations.ts` makes of it.  Each statement is
one step; it may fail, or commit and its answer be lost.  The clients read one clock.

The rest of the Host may make of the tables of Resources, deployments and attestations whatever it
likes between two statements, and what a lease fence finds in the database is not of this table.
-/

namespace Takoserver.RuntimeInputs

open Text

/-- `state` of a row. -/
inductive State where
  | prepared
  | claimed
  | dispatched
  | consumed
  | revoked
  | expired
  | indeterminate
  deriving DecidableEq

/-- `worker_runtime_input_preparations`. -/
structure Row (χ : Type) where
  organizationId : String
  operationKey : String
  preparationId : String
  applyCommitment : String
  canonicalPublicOrigin : String
  /-- `binding_names_json`. -/
  bindingNames : List String
  sealedPayload : Option χ
  sealNonce : Option Nonce
  sealKeyId : Option String
  leaseGeneration : Option Nonce
  state : State
  fence : ℕ
  hostOperationId : Option String := none
  claimOwner : Option String := none
  claimExpiresAt : Option Instant := none
  claimedResourceUid : Option String := none
  space : Option String
  workerName : Option String := none
  workerResourceUid : Option String := none
  bundleName : Option String := none
  consumedReceiptDigest : Option String := none
  expiresAt : Instant
  createdAt : Instant
  updatedAt : Instant
  consumedAt : Option Instant := none
  revokedAt : Option Instant := none

variable {χ κ : Type}

namespace Row

variable (r : Row χ)

/-- The primary key. -/
def key : String × String := (r.organizationId, r.operationKey)

/-- The length of the names as a JSON array. -/
def namesLength (names : List String) : ℕ := 1 + (names.map fun name => name.length + 3).sum

/-- The `CHECK`s. -/
def check : Bool :=
  let within (low high : ℕ) (s : String) : Bool := decide (low ≤ sqlLength s ∧ sqlLength s ≤ high)
  let live := decide (r.state = .prepared) || decide (r.state = .claimed)
  let bound := decide (r.state = .claimed) || decide (r.state = .dispatched) ||
    decide (r.state = .consumed)
  within 1 128 r.organizationId && within 8 128 r.operationKey && within 3 42 r.preparationId &&
    sha256Digest r.applyCommitment && within 8 2048 r.canonicalPublicOrigin &&
    decide (3 ≤ namesLength r.bindingNames ∧ namesLength r.bindingNames ≤ 8192) &&
    decide (1 ≤ r.fence) &&
    decide (r.sealedPayload.isNone = r.sealNonce.isNone) &&
    decide (r.sealedPayload.isNone = r.sealKeyId.isNone) &&
    decide (live = r.sealedPayload.isSome) &&
    decide (r.claimOwner.isNone = r.claimExpiresAt.isNone) &&
    r.claimExpiresAt.all (fun t => decide (r.createdAt ≤ t)) &&
    (decide (r.state ≠ .prepared) || r.hostOperationId.isNone) &&
    (!bound || r.hostOperationId.isSome && r.claimedResourceUid.isSome && r.space.isSome &&
      r.workerName.isSome && r.workerResourceUid.isSome && r.bundleName.isSome) &&
    r.space.all (within 1 255) && r.workerName.all (within 1 128) &&
    r.workerResourceUid.all (within 3 128) && r.bundleName.all (within 1 128) &&
    r.hostOperationId.all (within 3 128) &&
    decide (r.createdAt ≤ r.expiresAt) && decide (r.createdAt ≤ r.updatedAt) &&
    r.consumedAt.all (fun t => decide (r.createdAt ≤ t)) &&
    r.revokedAt.all (fun t => decide (r.createdAt ≤ t)) &&
    decide (decide (r.state = .consumed) = r.consumedAt.isSome) &&
    decide (decide (r.state = .consumed) = r.consumedReceiptDigest.isSome) &&
    decide (decide (r.state = .revoked) = r.revokedAt.isSome) &&
    r.leaseGeneration.all generationText

/-- `rowExpired`. -/
def expired (now : Instant) : Bool :=
  decide (r.state = .prepared) && decide (r.expiresAt ≤ now) ||
    decide (r.state = .claimed) && decide (r.claimExpiresAt.getD 0 ≤ now)

/-- The `WHERE` of `expireDue`. -/
def due (now : Instant) : Bool :=
  decide (r.state = .prepared) && decide (r.expiresAt ≤ now) ||
    decide (r.state = .claimed) && r.claimExpiresAt.any fun t => decide (t ≤ now)

/-- A closed row: its material is erased, and its fence goes on. -/
def close (state : State) (now : Instant) : Row χ :=
  { r with
    state, sealedPayload := none, sealNonce := none, sealKeyId := none, fence := r.fence + 1
    claimOwner := none, claimExpiresAt := none, updatedAt := now }

/-- The row revoked. -/
def revoke (now : Instant) : Row χ := { r.close .revoked now with revokedAt := some now }

/-- The row consumed by a receipt. -/
def consume (receiptDigest : String) (now : Instant) : Row χ :=
  { r.close .consumed now with
    consumedReceiptDigest := some receiptDigest, consumedAt := some now }

end Row

/-! ### Arguments -/

/-- Where the bindings of a claim go. -/
structure ClaimTarget where
  space : String
  workerName : String
  workerResourceUid : String
  bundleName : String

/-- A boolean expression of a trusted composition. -/
structure SqlPredicate where
  sql : String
  params : List Json

/-- What names an operation and its claim. -/
structure RecoveryInput where
  organizationId : String
  operationKey : String
  claimOwner : String
  resourceUid : String
  target : ClaimTarget
  bindingNames : List String
  expectedGeneration : Option Nonce := none

/-- What `claim` is asked. -/
structure ClaimInput extends RecoveryInput where
  publicApply : PublicApply
  claimFence : Option SqlPredicate := none

/-- What names a claim that was made. -/
structure ClaimIdentity where
  organizationId : String
  preparationId : String
  claimOwner : String
  resourceUid : String
  fence : ℕ
  leaseGeneration : Nonce

/-- What `consume` is asked. -/
structure Consumption extends ClaimIdentity where
  receiptDigest : String

/-- Whom a claim hands the bindings to. -/
structure Handoff where
  hostOperationId : String
  resourceUid : String
  target : ClaimTarget

/-- The handoff a recovery speaks of. -/
def RecoveryInput.handoff (input : RecoveryInput) : Handoff :=
  ⟨input.claimOwner, input.resourceUid, input.target⟩

/-! ### The other tables -/

/-- `tf_resource_deletion_attestations`, as far as it is read here. -/
structure Attestation where
  tenantId : String
  resourceUid : String
  state : V1.AttestationState

/-- `tf_resources`, as far as it is read here. -/
structure Resource where
  tenantId : String
  uid : String
  space : String
  name : String
  kind : String

/-- `state` of a Deployment of the host. -/
inductive DeploymentState where
  | provisioning
  | candidate
  | active
  | draining
  | retained
  | failed
  | deleted
  deriving DecidableEq

/-- `tf_resource_deployments`, as far as it is read here. -/
structure Deployment where
  tenantId : String
  resourceUid : String
  state : DeploymentState

/-- The tables of the host that these statements read. -/
structure Host where
  attestations : List Attestation := []
  resources : List Resource := []
  deployments : List Deployment := []

namespace Host

variable (host : Host)

/-- The incarnation has a live attestation. -/
def live (tenantId resourceUid : String) : Bool :=
  host.attestations.any fun a =>
    decide (a.tenantId = tenantId ∧ a.resourceUid = resourceUid ∧ a.state = .live)

/-- The `SELECT` of `spentOnAbsentIncarnation`. -/
def gone (tenantId resourceUid : String) : Bool :=
  (host.attestations.any fun a =>
    decide (a.tenantId = tenantId ∧ a.resourceUid = resourceUid ∧ a.state = .closed)) &&
  !host.resources.any fun r => decide (r.tenantId = tenantId ∧ r.uid = resourceUid)

/-- The Worker of a claimed row is live, in its place, and deployed. -/
def dispatchable (tenantId : String) (r : Row χ) : Bool :=
  r.workerResourceUid.any fun uid =>
    host.live tenantId uid &&
    decide ((host.resources.countP fun x => decide (x.tenantId = tenantId ∧ x.uid = uid ∧
      r.space = some x.space ∧ r.workerName = some x.name ∧ x.kind = "ModuleWorker")) = 1) &&
    host.deployments.any fun d =>
      decide (d.tenantId = tenantId ∧ d.resourceUid = uid ∧ d.state = .active)

end Host

/-! ### Statements -/

/-- The tables, with the clock and the history of the draws. -/
structure Tables (χ : Type) where
  rows : List (Row χ) := []
  host : Host := {}
  /-- The clock of every client. -/
  now : Instant := 0
  /-- The random bytes that were drawn, and by which process. -/
  drawn : List (ℕ × Nonce) := []
  /-- The prepare calls whose row was inserted, by its generation. -/
  sealings : List (Nonce × PreparationInput × Option String) := []
  /-- The handoffs that were claimed, by their generation. -/
  handoffs : List (Nonce × Handoff) := []

/-- `UPDATE … SET … WHERE …`: it aborts where a row would break a `CHECK`. -/
def Tables.update (s : Tables χ) (p : Row χ → Bool) (f : Row χ → Row χ) :
    Except Failure ℕ × Tables χ :=
  if s.rows.all fun r => !p r || (f r).check then
    (.ok (s.rows.countP p), { s with rows := Table.update p f s.rows })
  else (.error .other, s)

/-- A `DELETE`, with its count. -/
def Tables.delete (s : Tables χ) (p : Row χ → Bool) : Except Failure ℕ × Tables χ :=
  (.ok (s.rows.countP p), { s with rows := Table.delete p s.rows })

/-- The fence of a handoff, as the statement that compares it binds it. -/
structure ClaimUpdate where
  input : RecoveryInput
  fence : ℕ
  sealNonce : Option Nonce
  generation : Nonce
  executing : String
  claimFence : Option SqlPredicate
  claimExpiresAt : Instant
  now : Instant

/-- The statement that `noEffectRevocation` makes. -/
structure NoEffect where
  input : RecoveryInput
  preparationId : String
  generation : Nonce
  now : Instant

/-- A statement, or the reading of the clock or of random bytes. -/
inductive Call (χ : Type) where
  | time
  | randomBytes
  | readRow (organizationId operationKey : String)
  | readByPreparationId (organizationId preparationId : String)
  | spentOnAbsent (organizationId resourceUid : String)
  | authorized (fence : SqlPredicate)
  | insert (input : PreparationInput) (scope : Option String) (row : Row χ)
  | ensureGeneration (row : Row χ) (nonce : Nonce)
  | claim (update : ClaimUpdate)
  | abort (input : ClaimIdentity) (now : Instant)
  | dispatch (input : ClaimIdentity) (fence : Option SqlPredicate) (now : Instant)
  | consume (input : Consumption) (now : Instant)
  | abandon (input : RecoveryInput) (preparationId : String) (fence : ℕ) (generation : Nonce)
      (now : Instant)
  | noEffect (statement : NoEffect)
  | revoke (organizationId operationKey : String) (now : Instant)
  | expireDue (now : Instant) (limit : ℕ)
  | reclaim (now : Instant) (limit : ℕ)
  | discardSpent (row : Row χ)
  | discardReplaceable (row : Row χ)
  | expireExact (row : Row χ) (now : Instant)
  | markIndeterminate (row : Row χ) (now : Instant)
  | host (host : Host)

/-- What a statement gives back. -/
abbrev Call.Answer : Call χ → Type
  | .time => Instant
  | .randomBytes => Nonce
  | .readRow .. | .readByPreparationId .. => Option (Row χ)
  | .spentOnAbsent .. | .authorized .. => Bool
  | .insert .. | .host .. => Unit
  | _ => ℕ

/-- What the outside makes of a call. -/
inductive Acknowledgement where
  | answered
  | lost
  | failed

/-- What a statement finds around it. -/
structure Outside where
  /-- How far the clock went on. -/
  elapsed : ℕ := 0
  acknowledgement : Acknowledgement := .answered
  /-- The random bytes, where some are drawn. -/
  nonce : Nonce := ""
  /-- What a lease fence finds. -/
  authorized : Bool := true

/-- How long a closed row is kept. -/
def terminalRetentionMilliseconds : ℕ := 7 * 24 * 60 * 60 * 1000

/-- `ORDER BY updated_at, rowid LIMIT ?`. -/
def Tables.oldest (s : Tables χ) (p : Row χ → Bool) (limit : ℕ) : List (String × String) :=
  (((s.rows.filter p).insertionSort fun a b => a.updatedAt ≤ b.updatedAt).take limit).map Row.key

/-- The rows that a statement of an exact claim compares. -/
def ClaimIdentity.matches_ (input : ClaimIdentity) (r : Row χ) : Bool :=
  decide (r.organizationId = input.organizationId ∧ r.preparationId = input.preparationId ∧
    r.state = .claimed ∧ r.fence = input.fence ∧
    r.leaseGeneration = some input.leaseGeneration ∧ r.sealNonce = some input.leaseGeneration ∧
    r.claimOwner = some input.claimOwner ∧ r.claimedResourceUid = some input.resourceUid)

namespace Tables

variable (s : Tables χ)

/-- The row, unless its key or its preparation id is taken. -/
def insert (input : PreparationInput) (scope : Option String) (row : Row χ) :
    Except Failure Unit × Tables χ :=
  if row.check && s.rows.all fun r => r.key ≠ row.key &&
      (r.organizationId ≠ row.organizationId || r.preparationId ≠ row.preparationId) then
    (.ok (), { s with
      rows := s.rows ++ [row]
      sealings := s.sealings ++ [(row.leaseGeneration.getD "", input, scope)] })
  else (.error .other, s)

/-- The `UPDATE` of `claim`. -/
def claim (authorized : Bool) (u : ClaimUpdate) : Except Failure ℕ × Tables χ :=
  let where_ (r : Row χ) : Bool :=
    decide (r.key = (u.input.organizationId, u.input.operationKey) ∧ r.state = .prepared ∧
      r.fence = u.fence ∧ r.sealNonce.isSome ∧ r.sealNonce = u.sealNonce ∧
      r.leaseGeneration = some u.generation ∧ u.now < r.expiresAt ∧
      r.applyCommitment = u.executing ∧ (r.space = none ∨ r.space = some u.input.target.space) ∧
      (u.claimFence.isNone ∨ authorized) ∧
      s.host.live u.input.organizationId u.input.target.workerResourceUid)
  match s.update where_ fun r => { r with
    state := .claimed, fence := r.fence + 1, hostOperationId := some u.input.claimOwner
    claimOwner := some u.input.claimOwner, claimExpiresAt := some u.claimExpiresAt
    claimedResourceUid := some u.input.resourceUid, space := some u.input.target.space
    workerName := some u.input.target.workerName
    workerResourceUid := some u.input.target.workerResourceUid
    bundleName := some u.input.target.bundleName, updatedAt := u.now } with
  | (.ok changes, s') =>
      (.ok changes, if changes = 0 then s' else
        { s' with handoffs := s'.handoffs ++ [(u.generation, u.input.handoff)] })
  | (.error e, s') => (.error e, s')

/-- The `UPDATE` of `abandon`. -/
def abandon (input : RecoveryInput) (preparationId : String) (fence : ℕ) (generation : Nonce)
    (now : Instant) : Except Failure ℕ × Tables χ :=
  s.update (fun r => decide (r.organizationId = input.organizationId ∧
    r.preparationId = preparationId ∧ r.fence = fence ∧ r.leaseGeneration = some generation ∧
    r.claimedResourceUid = some input.resourceUid ∧ r.hostOperationId = some input.claimOwner ∧
    (r.state = .claimed ∨ r.state = .dispatched))) fun r => r.revoke now

/-- The `UPDATE` of `noEffect`. -/
def noEffect (st : NoEffect) : Except Failure ℕ × Tables χ :=
  s.update (fun r => decide (r.key = (st.input.organizationId, st.input.operationKey) ∧
    r.preparationId = st.preparationId ∧ r.sealNonce = some st.generation ∧
    r.leaseGeneration = some st.generation ∧ r.bindingNames = st.input.bindingNames ∧
    (r.space = none ∨ r.space = some st.input.target.space) ∧
    (r.state = .prepared ∨ r.state = .claimed ∧ r.claimOwner = some st.input.claimOwner ∧
      r.claimedResourceUid = some st.input.resourceUid ∧
      r.workerName = some st.input.target.workerName ∧
      r.workerResourceUid = some st.input.target.workerResourceUid ∧
      r.bundleName = some st.input.target.bundleName))) fun r => r.revoke st.now

/-- The oldest due rows, closed. -/
def expireDue (now : Instant) (limit : ℕ) : Except Failure ℕ × Tables χ :=
  let due := s.oldest (fun r => r.due now) limit
  s.update (fun r => due.contains r.key) fun r => r.close .expired now

/-- The oldest rows closed long ago, deleted. -/
def reclaim (now : Instant) (limit : ℕ) : Except Failure ℕ × Tables χ :=
  let due := s.oldest (fun r => r.state ≠ .prepared && r.state ≠ .claimed &&
    r.sealedPayload.isNone && r.updatedAt + terminalRetentionMilliseconds ≤ now) limit
  s.delete fun r => due.contains r.key

/-- The `UPDATE` of `expireExact`, on the expiry of the state that was read. -/
def expireExact (row : Row χ) (now : Instant) : Except Failure ℕ × Tables χ :=
  s.update (fun r => decide (r.organizationId = row.organizationId ∧
    r.preparationId = row.preparationId ∧ r.state = row.state ∧ r.fence = row.fence ∧
    if row.state = .claimed then r.claimExpiresAt = row.claimExpiresAt
      else r.expiresAt = row.expiresAt)) fun r => r.close .expired now

end Tables

/-- What a call does; `none` where the drawn bytes are not fresh. -/
def exec (n : ℕ) (w : Outside) (s : Tables χ) :
    (c : Call χ) → Option (Except Failure c.Answer × Tables χ)
  | .time => some (.ok s.now, s)
  | .randomBytes =>
      if generationText w.nonce ∧ w.nonce ∉ s.drawn.map Prod.snd then
        some (.ok w.nonce, { s with drawn := s.drawn ++ [(n, w.nonce)] })
      else none
  | .readRow organizationId operationKey =>
      some (.ok (s.rows.find? fun r => r.key = (organizationId, operationKey)), s)
  | .readByPreparationId organizationId preparationId =>
      some (.ok (s.rows.find? fun r =>
        r.organizationId = organizationId ∧ r.preparationId = preparationId), s)
  | .spentOnAbsent organizationId resourceUid => some (.ok (s.host.gone organizationId resourceUid), s)
  | .authorized _ => some (.ok w.authorized, s)
  | .insert input scope row => some (s.insert input scope row)
  | .ensureGeneration row nonce =>
      some (s.update (fun r => decide (r.key = row.key ∧ r.preparationId = row.preparationId ∧
        r.state = row.state ∧ r.fence = row.fence ∧ r.sealNonce = some nonce ∧
        r.leaseGeneration = none)) fun r => { r with leaseGeneration := r.sealNonce })
  | .claim update => some (s.claim w.authorized update)
  | .abort input now => some (s.update input.matches_ fun r => r.revoke now)
  | .dispatch input fence now =>
      some (s.update (fun r => input.matches_ r && r.claimExpiresAt.any (fun t => now < t) &&
        (fence.isNone || w.authorized) && s.host.dispatchable input.organizationId r)
        fun r => r.close .dispatched now)
  | .consume input now =>
      some (s.update (fun r => decide (r.organizationId = input.organizationId ∧
        r.preparationId = input.preparationId ∧ r.state = .dispatched ∧ r.fence = input.fence ∧
        r.leaseGeneration = some input.leaseGeneration ∧
        r.hostOperationId = some input.claimOwner ∧
        r.claimedResourceUid = some input.resourceUid)) fun r => r.consume input.receiptDigest now)
  | .abandon input preparationId fence generation now =>
      some (s.abandon input preparationId fence generation now)
  | .noEffect statement => some (s.noEffect statement)
  | .revoke organizationId operationKey now =>
      some (s.update (fun r => decide (r.key = (organizationId, operationKey) ∧
        (r.state = .prepared ∨ r.state = .claimed))) fun r => r.revoke now)
  | .expireDue now limit => some (s.expireDue now limit)
  | .reclaim now limit => some (s.reclaim now limit)
  | .discardSpent row =>
      some (s.delete fun r => decide (r.key = row.key ∧ r.fence = row.fence ∧
        r.state = row.state ∧ r.claimedResourceUid.isSome ∧
        r.claimedResourceUid = row.claimedResourceUid))
  | .discardReplaceable row =>
      some (s.delete fun r => decide (r.key = row.key ∧ r.fence = row.fence ∧
        r.state ≠ .dispatched ∧ r.state ≠ .consumed))
  | .expireExact row now => some (s.expireExact row now)
  | .markIndeterminate row now =>
      some (s.update (fun r => decide (r.organizationId = row.organizationId ∧
        r.preparationId = row.preparationId ∧ r.state = .claimed ∧ r.fence = row.fence))
        fun r => r.close .indeterminate now)
  | .host host => some (.ok (), { s with host })

/-- The database, not the client, answers. -/
def Call.statement : Call χ → Bool
  | .time | .randomBytes => false
  | _ => true

/-- One call in one circumstance. -/
def runs : Runs (Call χ) Call.Answer Failure (Tables χ) Outside := fun n c w s =>
  let s := { s with now := s.now + w.elapsed }
  match if c.statement then w.acknowledgement else .answered with
  | .answered => exec n w s c
  | .lost => (exec n w s c).map fun result => (.error .other, result.2)
  | .failed => some (.error .other, s)

end Takoserver.RuntimeInputs
