import Takoserver.V1.Store

/-!
# The effect ledger and its projection

Every provider effect of a Resource is a row of `tf_resource_provider_effects`,
and is listed again in its deletion attestation: `effects_json` has the events,
and `closure_fence` counts them.  The batches of the store write the row and the
list together.  `recordResourceEffect` is two reads and two writes, each a
statement of its own, and a call may stop before any of them.
-/

namespace Takoserver.V1

/-- The tenant and the uid. -/
def Effect.tenantUid (e : Effect) : String × String := (e.tenantId, e.resourceUid)

/-- The attempt an event is of. -/
def Effect.attempt (e : Effect) : String × String × String := (e.tenantId, e.resourceUid, e.effectId)

/-- The events of an incarnation, in order. -/
def eventsOf (tenantUid : String × String) (effects : List Effect) : List Effect :=
  effects.filter fun e => decide (e.tenantUid = tenantUid)

/-- `closure_fence` and `effects_json` of an attestation. -/
structure Projection where
  tenantId : String
  resourceUid : String
  closureFence : ℕ
  effects : List Effect

namespace Projection

def tenantUid (p : Projection) : String × String := (p.tenantId, p.resourceUid)

/-- `closure_fence + 1`, and the event at the end of `effects_json`. -/
def record (e : Effect) (p : Projection) : Projection :=
  { p with closureFence := p.closureFence + 1, effects := p.effects ++ [e] }

/-- The columns of a new attestation. -/
def opened (tenantUid : String × String) : Projection :=
  { tenantId := tenantUid.1, resourceUid := tenantUid.2, closureFence := 1, effects := [] }

end Projection

/-! ### The batches -/

/-- The columns of the attestation an insert opens, where it is not ignored. -/
def openProjection (tenantUid : String × String) (t : Tables) (ps : List Projection) :
    List Projection :=
  if t.attests tenantUid.1 tenantUid.2 fun _ => true then ps
  else ps ++ [Projection.opened tenantUid]

/-- The `UPDATE` that records an event, on the attestation of its incarnation in some state. -/
def project (e : Effect) (state : Attestation → Bool) (t : Tables) (ps : List Projection) :
    List Projection :=
  if t.attests e.tenantId e.resourceUid state then
    Table.update (fun p => decide (p.tenantUid = e.tenantUid)) (Projection.record e) ps
  else ps

/-- The columns go with the attestation of an incarnation that was never committed. -/
def releaseProjection (tenantId resourceUid effectId : String) (elsewhere : Bool) (t : Tables)
    (ps : List Projection) : List Projection :=
  if isUncommitted tenantId resourceUid effectId elsewhere t then
    Table.delete (fun p => decide (p.tenantUid = (tenantId, resourceUid))) ps
  else ps

/-- The saga whose guard `settleProviderMutationPreconditionFailure` inserts. -/
def settledSaga (i : SagaRef) (leaseToken : String) (action : Option RecoveryAction)
    (timestamp : Instant) (t : Tables) : Option Saga :=
  t.sagas.find? fun r => r.failsPrecondition i leaseToken action timestamp &&
    t.attests i.tenantId i.resourceUid Attestation.isOpen &&
    t.hasEffect i.tenantId i.resourceUid i.operationId (fun e =>
      decide (e.effectKind = r.operationKind ∧ e.phase = .planned ∧ e.operationMode = .initial)) &&
    !t.hasEffect i.tenantId i.resourceUid i.operationId Effect.isTerminal

/-- The event it records. -/
def SagaRef.cancelled (i : SagaRef) (kind : OperationKind) : Effect :=
  { tenantId := i.tenantId, resourceUid := i.resourceUid, effectId := i.operationId,
    effectKind := kind, phase := .cancelled, operationMode := .initial }

/-- Its `UPDATE`, which records no event twice. -/
def projectSettlement (i : SagaRef) (leaseToken : String) (action : Option RecoveryAction)
    (timestamp : Instant) (t : Tables) (ps : List Projection) : List Projection :=
  match settledSaga i leaseToken action timestamp t with
  | none => ps
  | some r =>
    let e := i.cancelled r.operationKind
    if ps.any fun p => decide (p.tenantUid = e.tenantUid) && p.effects.any fun e' =>
        decide (e'.key = e.key) then ps
    else project e Attestation.isOpen t ps

namespace DefinitiveFailure

variable (c : DefinitiveFailure)

/-- An event of the attempt that fails. -/
def event (phase : EffectPhase) : Effect :=
  { tenantId := c.saga.target.tenantId, resourceUid := c.saga.resourceUid,
    effectId := c.saga.operationId, effectKind := .apply, phase, operationMode := .initial }

def tenantUid : String × String := (c.saga.target.tenantId, c.saga.resourceUid)

/-- The statements of `commitDefinitiveProviderMutationFailure`. -/
def project (elsewhere : Bool) (t : Tables) (ps : List Projection) : List Projection :=
  let ps := V1.project (c.event .cancelled) (fun a => decide (a.state = .live)) t ps
  if c.create && c.compensation.isNone then
    releaseProjection c.saga.target.tenantId c.saga.resourceUid c.saga.operationId elsewhere
      (c.conclude t) ps
  else ps

/-- `definitiveProviderFailureCommittedFence`, on the effects and the attestation. -/
def ledgerFence (t : Tables) (ps : List Projection) : Bool :=
  if c.create then
    if c.compensation.isSome then
      decide ((t.effects.filter fun e => decide (e.attempt = (c.event .cancelled).attempt)).length
          = 3) &&
        [EffectPhase.planned, .dispatched, .cancelled].all (fun phase =>
          decide (c.event phase ∈ t.effects)) &&
        (t.attests c.saga.target.tenantId c.saga.resourceUid fun a =>
          decide (a.address = c.saga.target ∧ a.state = .cancelled) &&
            match c.hostOperation with
            | .immediate => true
            | .deferred o _ _ => decide (a.formRef = o.targetFormRef)) &&
        ps.any fun p => decide (p.tenantUid = c.tenantUid ∧ p.closureFence = 4 ∧
          p.effects = [c.event .planned, c.event .dispatched, c.event .cancelled])
    else
      !(t.effects.any fun e => decide (e.tenantUid = c.tenantUid)) &&
        !t.attests c.saga.target.tenantId c.saga.resourceUid fun _ => true
  else
    decide (c.event .cancelled ∈ t.effects) &&
      (t.attests c.saga.target.tenantId c.saga.resourceUid fun a =>
        decide (a.address = c.saga.target ∧ a.state = .live)) &&
      ps.any fun p => decide (p.tenantUid = c.tenantUid ∧ c.event .cancelled ∈ p.effects)

end DefinitiveFailure

namespace Mutation

variable (m : Mutation)

def tenantUid : String × String := (m.address.tenantId, m.resourceUid)

/-- The event a commit records. -/
def event (operationId : String) (kind : OperationKind) : Option Effect :=
  match m.change with
  | .unchanged .. => none
  | .write _ _ _ operationMode _ | .delete _ operationMode =>
    some { tenantId := m.address.tenantId, resourceUid := m.resourceUid, effectId := operationId,
           effectKind := kind, phase := .succeeded, operationMode }

/-- The `UPDATE`s of a commit: the event is listed even where the insert of its row was ignored,
and the fence moves once more where the attestation closes. -/
def project (operationId : String) (kind : OperationKind) (t : Tables) (ps : List Projection) :
    List Projection :=
  let ps := (m.event operationId kind).elim ps fun e => V1.project e Attestation.isOpen t ps
  let closes := (m.closeTombstone operationId (m.concludeEffect operationId kind t)).attests
    m.address.tenantId m.resourceUid (fun a => decide (a.state = .closed))
  if m.isDelete && closes then
    Table.update (fun p => decide (p.tenantUid = m.tenantUid))
      (fun p => { p with closureFence := p.closureFence + 1 }) ps
  else ps

end Mutation

/-- What a call does to the columns, from the tables it finds. -/
def Call.project (timestamp : Instant) (t : Tables) (ps : List Projection) :
    Call → List Projection
  | .reserveIncarnation address resourceUid _ | .prepareDeletion address resourceUid _ _ =>
    openProjection (address.tenantId, resourceUid) t ps
  | .releaseIncarnation tenantId resourceUid effectId elsewhere =>
    releaseProjection tenantId resourceUid effectId elsewhere t ps
  | .settlePrecondition i leaseToken action => projectSettlement i leaseToken action timestamp t ps
  | .commitDefinitiveFailure failure elsewhere => failure.project elsewhere t ps
  | .commitImmediate m operationId kind _ => m.project operationId kind t ps
  | .commitDeferred operation m _ _ _ => m.project operation.id operation.operation t ps
  | _ => ps

/-- A definitive failure is committed where its last guard finds the ledger as it says. -/
def Call.ledgerFence (t : Tables) (ps : List Projection) : Call → Bool
  | .commitDefinitiveFailure failure _ => failure.ledgerFence t ps
  | _ => true

/-! ### `recordResourceEffect` -/

/-- The statement a call of `recordResourceEffect` is at. -/
inductive RecorderStage where
  /-- The event row is to be read. -/
  | existing
  /-- There was none: the earlier phases are. -/
  | prior
  /-- They permit the event: its row is to be inserted. -/
  | insert
  /-- The row is there: the attestation is to list it. -/
  | project
  | answered (recorded : Bool)
  /-- The process stopped, or an acknowledgement was lost. -/
  | stopped
  deriving DecidableEq

/-- One call of `recordResourceEffect`. -/
structure Recorder where
  effect : Effect
  stage : RecorderStage := .existing

/-- The triggers on the order of an attempt's phases. -/
def phaseIsPermitted (e : Effect) (t : Tables) : Bool :=
  let has := fun phase => t.hasEffect e.tenantId e.resourceUid e.effectId fun e' =>
    decide (e'.phase = phase)
  !((decide (e.phase = .dispatched) && !has .planned) ||
    (decide (e.phase = .succeeded) && !has .dispatched) ||
    (decide (e.phase = .cancelled) && !has .planned && !has .dispatched) ||
    has .succeeded || has .cancelled)

/-- The insert changes one row. -/
def effectIsInserted (e : Effect) (t : Tables) : Bool :=
  t.attests e.tenantId e.resourceUid Attestation.isOpen &&
    !t.effects.any fun e' => decide (e'.key = e.key)

/-- The next stage of a call, on the tables it finds. -/
def Recorder.next (t : Tables) (r : Recorder) : Option Recorder :=
  match r.stage with
  | .existing =>
    some { r with
      stage := if t.effects.any fun e => decide (e.key = r.effect.key) then .answered true
        else .prior }
  | .prior =>
    some { r with stage := if phaseIsPermitted r.effect t then .insert else .answered false }
  | .insert =>
    some { r with stage := if effectIsInserted r.effect t then .project else .answered false }
  | .project => some { r with stage := .answered true }
  | .answered _ | .stopped => none

/-- The row a call has inserted that its attestation does not list yet. -/
def Recorder.unprojected (r : Recorder) : Option Effect :=
  if r.stage = .project then some r.effect else none

/-! ### The machine -/

/-- The store, the columns of its attestations, and the calls of `recordResourceEffect`. -/
structure Ledger where
  store : Store := {}
  projections : List Projection := []
  recorders : List Recorder := []

/-- The rows that calls have inserted and not listed yet. -/
def Ledger.unprojected (s : Ledger) : List Effect := s.recorders.filterMap Recorder.unprojected

/-- One move: a call of the store, or the start of an attempt. -/
inductive LedgerAct where
  /-- A statement or batch of the store. -/
  | call (c : Call)
  /-- `recordResourceEffect` is called. -/
  | start (e : Effect)
  /-- A call of it runs its next statement. -/
  | step (n : ℕ)
  /-- A call of it runs no further: a crash, or an acknowledgement that was lost. -/
  | stop (n : ℕ)

/-- A call of `recordResourceEffect` runs its next statement. -/
def Ledger.step (D : Digests) (s : Ledger) (timestamp : Instant) (n : ℕ) (r : Recorder) :
    Option Ledger :=
  (r.next s.store.tables).bind fun r' =>
    let recorders := s.recorders.set n r'
    match r.stage with
    | .insert =>
      ((V1.store D).next s.store (timestamp, .recordEffect r.effect)).map fun store =>
        { s with store, recorders }
    | .project =>
      some { s with
        projections := project r.effect Attestation.isOpen s.store.tables s.projections
        recorders }
    | _ => some { s with recorders }

/-- All runs of the store and any number of calls of `recordResourceEffect`, which is not one
statement. -/
def ledger (D : Digests) : Machine Ledger (Instant × LedgerAct) where
  init := {}
  next s a :=
    match a.2 with
    | .call (.recordEffect _) => none
    | .call c =>
      ((store D).next s.store (a.1, c)).bind fun store =>
        let projections := c.project a.1 s.store.tables s.projections
        if c.ledgerFence store.tables projections then some { s with store, projections } else none
    | .start effect => some { s with recorders := s.recorders ++ [{ effect }] }
    | .step n => s.recorders[n]?.bind (s.step D a.1 n)
    | .stop n =>
      s.recorders[n]?.bind fun r =>
        match r.stage with
        | .answered _ | .stopped => none
        | _ => some { s with recorders := s.recorders.set n { r with stage := .stopped } }

end Takoserver.V1
