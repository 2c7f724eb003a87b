import Takoserver.Lib.Machine
import Takoserver.V1.Operations

/-!
# The store under any calls

The store of `src/takoform/store.ts` as a machine whose actions are its
statements and batches, called in any order, with any arguments and at any
instant.  Nothing is assumed of the callers: a worker that crashed makes no
more calls, one that lost its lease may still make one, and an answer that was
lost has taken effect.  What holds of this machine holds of every interleaving
of the engine's workers and of their clients.
-/

namespace Takoserver.V1

/-- A Resource with another rendering: a revision and a content of its own, and the relations that
were read after it. -/
def Resource.rendered (r : Resource) (relations : List StoredRelation) (revision content : String) :
    Resource :=
  { r with revision, relations, document := { r.document with revision, content } }

/-- The `UPDATE` of `writeResource`.  Whatever row has the address and the revision that were read
becomes the one that was read, uid and relations included. -/
def renderResource (read : Resource) (relations : List StoredRelation) (revision content : String)
    (t : Tables) : Tables :=
  let p := fun r : Resource => decide (r.address = read.address ∧ r.revision = read.revision)
  { t with
    resources := Table.update p (fun _ => read.rendered relations revision content) t.resources }

/-- A statement or batch of the store. -/
inductive Call where
  | acceptSaga (record : SagaRecord) (legacy : Bool)
  | rotateReplayKey (stored : SagaRecord) (replayKey : String)
  | acquireSaga (i : SagaRef) (lease : Lease) (mode : Mode)
  | releaseSaga (i : SagaRef) (leaseToken : String)
  | bindApply (i : SagaRef) (fingerprint leaseToken : String) (mode : Mode) (selectionJson : String)
  | bindImport (i : SagaRef) (fingerprint leaseToken : String) (mode : Mode)
      (selection : ImportSelection) (elsewhere : Bool)
  | markDispatch (i : SagaRef) (leaseToken : String) (mode : Mode)
      (dependencies : Option (DependencySet × Owner))
  | recordOutcome (i : SagaRef) (leaseToken : String) (outcome : ProviderOutcome)
      (providerHandle : Option String)
  | recordReceipt (i : SagaRef) (leaseToken : String) (authorityHeadDigest : Option String)
      (claimOwner : Option Owner) (receiptJson : String)
  | abandonPlan (i : SagaRef) (replayKey : String)
  | settleImport (i : SagaRef) (replayKey leaseToken : String)
  | settlePrecondition (i : SagaRef) (leaseToken : String) (action : Option RecoveryAction)
  | commitDefinitiveFailure (failure : DefinitiveFailure) (elsewhere : Bool)
  | reserveIncarnation (address : Address) (resourceUid : String) (formRef : FormRef)
  | recordEffect (effect : Effect)
  | prepareDeletion (address : Address) (resourceUid : String) (formRef : FormRef)
      (elsewhere : Bool)
  | releaseIncarnation (tenantId resourceUid effectId : String) (elsewhere : Bool)
  | reserveClaims (reservations : List ClaimReservation) (expiresAt : Instant)
  | releaseClaims (owner : Owner)
  | releaseCommittedClaims (tenantId holderUid : String)
  | reserveDependencies (s : DependencySet) (leaseToken : String) (expiresAt : Instant)
  | releaseDependencies (owner : Owner) (tenantId holderUid : String)
  | sweepOperations (swept : Operation → Bool)
  | acceptOperation (record : OperationRecord) (legacy authorized : Bool)
  | retireOperation (id replayKey : String)
  | decrementPolls (i : OperationRef)
  | armOperation (i : OperationRef)
  | acquireOperation (i : OperationRef) (lease : Lease)
  | cancelOperation (i : OperationRef) (terminalJson : String)
  | settleFailure (operation : Operation) (leaseToken terminalJson : String)
  | holdRepair (operation : Operation) (leaseToken : String) (createdAt : Instant)
  | commitImmediate (m : Mutation) (operationId : String) (kind : OperationKind) (elsewhere : Bool)
  | commitDeferred (operation : Operation) (m : Mutation) (leaseToken terminalJson : String)
      (elsewhere : Bool)
  /-- `commit` of the engine, in a read, an observation or a deletion: it writes what it read. -/
  | render (read : Resource) (relations : List StoredRelation) (revision content : String)
  /-- Sweeps of and further writes to `tf_replays` and `tf_operations`. -/
  | others (replays : List Replay) (settled : List SettledOperation)

/-- What a call does at an instant; `none` where it aborts. -/
def Call.apply (D : Digests) (timestamp : Instant) (t : Tables) : Call → Option Tables
  | .acceptSaga record legacy => acceptProviderMutationSaga record legacy t
  | .rotateReplayKey stored replayKey => (V1.rotateReplayKey stored replayKey t).map Prod.snd
  | .acquireSaga i lease mode => some (acquireProviderMutationExecution i lease mode timestamp t).2
  | .releaseSaga i leaseToken => some (releaseProviderMutationExecution i leaseToken t).2
  | .bindApply i fingerprint leaseToken mode selectionJson =>
    some (bindProviderMutationApplySelection i fingerprint leaseToken mode selectionJson timestamp
      t).2
  | .bindImport i fingerprint leaseToken mode selection elsewhere =>
    some (bindProviderMutationImportSelection i fingerprint leaseToken mode selection elsewhere
      timestamp t).2
  | .markDispatch i leaseToken mode dependencies =>
    (markProviderMutationDispatch D i leaseToken mode dependencies timestamp t).map Prod.snd
  | .recordOutcome i leaseToken outcome providerHandle =>
    some (recordProviderMutationOutcome i leaseToken outcome providerHandle timestamp t).2
  | .recordReceipt i leaseToken authorityHeadDigest claimOwner receiptJson =>
    recordProviderMutationReceipt i leaseToken authorityHeadDigest claimOwner receiptJson timestamp t
  | .abandonPlan i replayKey => (abandonProviderMutationPlan i replayKey t).map Prod.snd
  | .settleImport i replayKey leaseToken =>
    (settleDefinitiveProviderImportFailure i replayKey leaseToken timestamp t).map Prod.snd
  | .settlePrecondition i leaseToken action =>
    (settleProviderMutationPreconditionFailure i leaseToken action timestamp t).map Prod.snd
  | .commitDefinitiveFailure failure elsewhere =>
    (commitDefinitiveProviderMutationFailure D failure elsewhere timestamp t).map Prod.snd
  | .reserveIncarnation address resourceUid formRef =>
    some (reserveResourceIncarnation address resourceUid formRef t)
  | .recordEffect effect => some (recordResourceEffect effect t)
  | .prepareDeletion address resourceUid formRef elsewhere =>
    prepareResourceDeletion D address resourceUid formRef elsewhere timestamp t
  | .releaseIncarnation tenantId resourceUid effectId elsewhere =>
    uncommittedResourceIncarnationRelease tenantId resourceUid effectId elsewhere t
  | .reserveClaims reservations expiresAt => reserveResourceClaims reservations expiresAt timestamp t
  | .releaseClaims owner => some (releaseResourceClaims owner t)
  | .releaseCommittedClaims tenantId holderUid =>
    some (releaseCommittedResourceClaims tenantId holderUid t)
  | .reserveDependencies s leaseToken expiresAt =>
    reserveResourceDependencies D s leaseToken expiresAt timestamp t
  | .releaseDependencies owner tenantId holderUid =>
    some (releaseResourceDependencies owner tenantId holderUid t)
  | .sweepOperations swept => some (sweepDeferredOperations swept timestamp t)
  | .acceptOperation record legacy authorized => acceptDeferredOperation record legacy authorized t
  | .retireOperation id replayKey => some (retireDeferredOperation id replayKey t)
  | .decrementPolls i => some (V1.decrementPolls i t).2
  | .armOperation i => some (armDeferredOperation i t).2
  | .acquireOperation i lease => some (acquireDeferredOperation i lease timestamp t).2
  | .cancelOperation i terminalJson => some (cancelDeferredOperation i terminalJson timestamp t).2
  | .settleFailure operation leaseToken terminalJson =>
    some (settleDeferredFailure operation leaseToken terminalJson timestamp t).2
  | .holdRepair operation leaseToken createdAt =>
    some (holdDeferredProviderRepair operation leaseToken createdAt t).2
  | .commitImmediate m operationId kind elsewhere =>
    commitImmediateMutation D m operationId kind elsewhere timestamp t
  | .commitDeferred operation m leaseToken terminalJson elsewhere =>
    commitDeferredMutation D operation m leaseToken terminalJson elsewhere timestamp t
  | .render read relations revision content =>
    some (renderResource read relations revision content t)
  | .others replays settled => some { t with replays, settled }

/-- A mutation that was committed for an operation. -/
structure Commit where
  tenantId : String
  resourceUid : String
  operationId : String

def Call.mutation : Call → Option (Mutation × String)
  | .commitImmediate m operationId _ _ => some (m, operationId)
  | .commitDeferred operation m _ _ _ => some (m, operation.id)
  | _ => none

/-- The commit a call makes, unless it changes nothing. -/
def Call.commits (call : Call) : List Commit :=
  (call.mutation.bind fun c =>
    if c.1.isUnchanged then none
    else some { tenantId := c.1.address.tenantId, resourceUid := c.1.resourceUid,
                operationId := c.2 }).toList

/-- What a rendering writes was read: its Resource, and the relations of its address. -/
def Call.isRead (seen : List Resource) : Call → Bool
  | .render read relations _ _ =>
    decide (read ∈ seen) &&
      seen.any fun r => decide (r.address = read.address ∧ r.relations = relations)
  | _ => true

/-- A rendering is current: the row it replaces has the uid, the Form, the spec and the relations it
was read with. -/
def Call.isCurrent (t : Tables) : Call → Bool
  | .render read relations _ _ =>
    t.resources.all fun r => decide (r.address = read.address → r.revision = read.revision →
      r.uid = read.uid ∧ r.document.formRef = read.document.formRef ∧
        r.document.spec = read.document.spec ∧ r.relations = relations)
  | _ => true

/-- The tables, the latest instant that was used, the commits that were made, and every Resource row
there ever was. -/
structure Store where
  tables : Tables := {}
  clock : Instant := 0
  commits : List Commit := []
  seen : List Resource := []

/-- All runs of the store.  Clocks may disagree; all of them read before `repairHorizon`, the
last instant of the year 9999.  A caller may have read a Resource at any time. -/
def store (D : Digests) : Machine Store (Instant × Call) where
  init := {}
  next s a :=
    if a.1 < repairHorizon ∧ a.2.isRead s.seen = true then
      (a.2.apply D a.1 s.tables).map fun tables =>
        { tables, clock := max s.clock a.1, commits := s.commits ++ a.2.commits
          seen := s.seen ++ tables.resources }
    else none

/-- The step of a run whose renderings are current. -/
def rendersCurrent (s : Store) (a : Instant × Call) : Prop := a.2.isCurrent s.tables = true

theorem store_next {D : Digests} {s u : Store} {timestamp : Instant} {call : Call}
    (h : (store D).next s (timestamp, call) = some u) :
    timestamp < repairHorizon ∧ call.apply D timestamp s.tables = some u.tables ∧
      u.clock = max s.clock timestamp ∧ u.commits = s.commits ++ call.commits := by
  simp only [store] at h
  split at h
  · next hfence =>
    obtain ⟨t, ht, rfl⟩ := Option.map_eq_some_iff.mp h
    exact ⟨hfence.1, ht, rfl, rfl⟩
  · cases h

/-- What was seen: the rows of before, and those there are now. -/
theorem store_seen {D : Digests} {s u : Store} {timestamp : Instant} {call : Call}
    (h : (store D).next s (timestamp, call) = some u) :
    call.isRead s.seen = true ∧ u.seen = s.seen ++ u.tables.resources := by
  simp only [store] at h
  split at h
  · next hfence =>
    obtain ⟨t, ht, rfl⟩ := Option.map_eq_some_iff.mp h
    exact ⟨hfence.2, rfl⟩
  · cases h

end Takoserver.V1
