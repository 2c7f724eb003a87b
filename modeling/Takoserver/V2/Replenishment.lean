import Takoserver.V2.Acceptance
import Takoserver.V2.Transfers

/-!
# Private inputs in custody

`replenishPrivateInputs` of `src/takoform-v2/engine.ts`, one statement at a time, together
with the workers and with acceptances that seal what they accept.  Every process has a
custody of its own (`options.privateInputCustody`): the keys it opens and compares with are
those it was started with, so a rotation of the keys is another process.

What a worker reads of its custody when it opens a transfer is computed here from the row it
reads; the rest of its steps are those of `workers`.  The log `commitments` records what the
accepted Operations were committed to.
-/

namespace Takoserver.V2.PrivateInputs

/-- `privateBinding`. -/
def privateBinding (row : OperationRow) : PrivateInputBinding where
  operationId := row.id
  principal := row.principal
  resourceUid := row.resourceUid
  generation := row.generation

/-- The errors of `replenishPrivateInputs`; those of its own name the Operation. -/
inductive Refusal where
  | code (code : ErrorCode)
  | privateInputsConflict (operationId : Uuid)
  | privateInputsUnverifiable (operationId : Uuid)
  | operationTerminal (operationId : Uuid)

/-- Where a call of `replenishPrivateInputs` stands. -/
inductive Replenishment where
  /-- About to read the Operation. -/
  | reading (principal : String) (id : Uuid) (inputs : PrivateInputMap)
  /-- About to check that the Resource is the caller's. -/
  | authorizing (row : OperationRow) (inputs : PrivateInputMap)
  /-- About to read the commitment and to compare. -/
  | comparing (row : OperationRow) (inputs : PrivateInputMap)
  /-- About to seal the inputs and to commit its batch. -/
  | replenishing (row : OperationRow) (inputs : PrivateInputMap)
  /-- About to read the row it answers with. -/
  | rereading (id : Uuid)
  | answered (reply : Except Refusal OperationRow)

section Custodians

variable {Key : Type*} (crypto : Crypto Key)

/-- `seal`: the record with its private inputs sealed; without a custody there is none. -/
def sealRecord (custody : Option (PrivateInputCustody Key)) (record : AcceptRecord)
    (inputs : Option PrivateInputMap) (nonce : List UInt8) (nowMs : Instant) :
    Option AcceptRecord :=
  match inputs, custody with
  | none, _ => some { record with privateInputs := none }
  | some _, none => none
  | some inputs, some custody =>
    some { record with
      privateInputs := some (sealPrivateInputs crypto custody
        ⟨record.id, record.principal, record.resourceUid, record.generation⟩ inputs nonce nowMs) }

/-- An acceptance batch with its record sealed. -/
def sealAction (custody : Option (PrivateInputCustody Key)) (inputs : Option PrivateInputMap)
    (nonce : List UInt8) (nowMs : Instant) : StoreAction → Option StoreAction
  | .insertCreate record form space name references initialOutput admission guard vetoed =>
    (sealRecord crypto custody record inputs nonce nowMs).map fun record =>
      .insertCreate record form space name references initialOutput admission guard vetoed
  | .insertChange record references serialize admission guard vetoed =>
    (sealRecord crypto custody record inputs nonce nowMs).map fun record =>
      .insertChange record references serialize admission guard vetoed
  | _ => none

/-- The Operation an acceptance batch is about. -/
def acceptedId : StoreAction → Option Uuid
  | .insertCreate record .. | .insertChange record .. => some record.id
  | _ => none

/-- What a batch commits to, where its Operation is there after it. -/
def committed (db : Db) (action : StoreAction) : List Commitment :=
  if (acceptedId action).any fun id => (db.operation id).isSome then action.commitment.toList
  else []

/-- The next statement of a call of `replenishPrivateInputs`. -/
def serve (custody : Option (PrivateInputCustody Key)) (db : Db) (authorized : Bool)
    (nonce : List UInt8) (nowMs : Instant) : Replenishment → Replenishment × Option StoreAction
  | .reading principal id inputs =>
    match db.operation id with
    | none => (.answered (.error (.code .notFound)), none)
    | some row =>
      if row.principal ≠ principal then (.answered (.error (.code .notFound)), none)
      else (.authorizing row inputs, none)
  | .authorizing row inputs =>
    match ownedResource db row.principal row.resourceUid authorized with
    | .error code => (.answered (.error (.code code)), none)
    | .ok _ =>
      if row.privateInputsPresent then (.comparing row inputs, none)
      else (.answered (.error (.privateInputsConflict row.id)), none)
  | .comparing row inputs =>
    match db.privateInputs.find? fun held => held.operationId == row.id, custody with
    | some held, some custody =>
      match matchesPrivateInputs crypto custody (privateBinding row) held.comparisonKeyId
          held.comparisonTag inputs with
      | none => (.answered (.error (.privateInputsUnverifiable row.id)), none)
      | some false => (.answered (.error (.privateInputsConflict row.id)), none)
      | some true =>
        if row.status.terminal then (.answered (.error (.operationTerminal row.id)), none)
        else if row.status ≠ .waitingInput ∨ row.dispatchPossible then
          (.answered (.ok row), none)
        else (.replenishing row inputs, none)
    | _, _ => (.answered (.error (.privateInputsUnverifiable row.id)), none)
  | .replenishing row inputs =>
    match custody with
    | none => (.answered (.error (.privateInputsUnverifiable row.id)), none)
    | some custody =>
      let inputs := sealPrivateInputs crypto custody (privateBinding row) inputs nonce nowMs
      match db.replenish row.id inputs nowMs with
      | none => (.answered (.error (.code .sqlError)), none)
      | some _ => (.rereading row.id, some (.replenish row.id inputs nowMs))
  | .rereading id =>
    match db.operation id with
    | none => (.answered (.error (.code .temporarilyUnavailable)), none)
    | some row => (.answered (.ok row), none)
  | .answered reply => (.answered reply, none)

/-- What the custody of a worker tells it where it opens a transfer. -/
def consult (custody : Option (PrivateInputCustody Key)) (db : Db) (worker : Worker)
    (outside : Outside) : Outside :=
  match worker with
  | .unsealing row _ _ _ =>
    match db.privateInputs.find? fun held => held.operationId == row.id, custody with
    | some held, some custody =>
      let unsealed := held.transfer.bind (unsealPrivateInputs crypto custody (privateBinding row))
      { outside with
        material :=
          hasPrivateComparisonMaterial crypto custody held.comparisonKeyId held.comparisonTag
        unsealed := unsealed
        matched := unsealed.bind (matchesPrivateInputs crypto custody (privateBinding row)
          held.comparisonKeyId held.comparisonTag) }
    | _, _ => { outside with material := false }
  | _ => outside

/-- The workers, the calls of `replenishPrivateInputs` and the log of commitments. -/
structure Custody where
  system : System := {}
  call : ℕ → Option Replenishment := fun _ => none
  commitments : List Commitment := []

inductive Event where
  /-- Process `p` accepts an Operation, with the private inputs of its request. -/
  | accept (p : ℕ) (action : StoreAction) (inputs : Option PrivateInputMap) (nonce : List UInt8)
      (nowMs : Instant)
  /-- The next statement of a worker. -/
  | work (w : ℕ) (outside : Outside)
  /-- A worker stops, with or without an answer it did not read. -/
  | crash (w : ℕ)
  /-- Process `p` begins a call of `replenishPrivateInputs`; a call it was in is lost. -/
  | ask (p : ℕ) (principal : String) (id : Uuid) (inputs : PrivateInputMap)
  /-- The next statement of the call of process `p`. -/
  | serve (p : ℕ) (authorized : Bool) (nonce : List UInt8) (nowMs : Instant)

/-- The next statement of the call of process `p`, as a step of the whole. -/
def Custody.serve (custody : Option (PrivateInputCustody Key)) (s : Custody) (p : ℕ)
    (authorized : Bool) (nonce : List UInt8) (nowMs : Instant) (call : Replenishment) : Custody :=
  let outcome := PrivateInputs.serve crypto custody s.system.db authorized nonce nowMs call
  { s with
    system := { s.system with
      db := (outcome.2.map fun action => action.apply s.system.db).getD s.system.db }
    call := Function.update s.call p (some outcome.1) }

/-- The machine of all interleavings; `custody` is what each process was started with. -/
def custodians (options : EngineOptions) (custody : ℕ → Option (PrivateInputCustody Key)) :
    Machine Custody Event where
  init := {}
  next s
    | .accept p action inputs nonce nowMs =>
      match sealAction crypto (custody p) inputs nonce nowMs action with
      | none => none
      | some action =>
        if action.wellFormed s.system.db then
          let db := action.apply s.system.db
          some { s with
            system := { s.system with db := db }
            commitments := s.commitments ++ committed db action }
        else none
    | .work w outside =>
      some { s with
        system := s.system.step options w
          (consult crypto (custody w) s.system.db (s.system.worker w) outside) }
    | .crash w =>
      some { s with system := { s.system with
        worker := Function.update s.system.worker w .idle } }
    | .ask p principal id inputs =>
      some { s with call := Function.update s.call p (some (.reading principal id inputs)) }
    | .serve p authorized nonce nowMs =>
      (s.call p).map fun call => s.serve crypto (custody p) p authorized nonce nowMs call

end Custodians

end Takoserver.V2.PrivateInputs
