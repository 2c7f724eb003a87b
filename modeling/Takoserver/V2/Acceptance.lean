import Takoserver.V2.CanonicalRequest
import Takoserver.V2.Writes

/-!
# Acceptance

`acceptCreate`, `acceptUpdate` and `acceptDelete` of `src/takoform-v2/engine.ts` behind
their routes, one statement at a time.  A request looks its Idempotency-Key up before
anything else (a POST or PUT already in its route), checks what it can without the
database, commits one batch, and where that batch is refused or throws looks the key
up again for a winner.

What a request does not decide itself comes from `Preparation`: the Form's validation,
its references and admission predicate, the sealed private inputs and the deployed
backend.  A request whose fingerprint value `canonicalRequest` refuses ends before its first
statement, and is none of these.
-/

namespace Takoserver.V2

/-- The codes `fail` is called with on these paths; `sqlError` is a rethrown `SqlError`. -/
inductive ErrorCode where
  | invalidRequest
  | unauthenticated
  | forbidden
  | notFound
  | gone
  | resourceBusy
  | generationConflict
  | idempotencyConflict
  | dependencyConflict
  | nameConflict
  | capabilityRequired
  | unsupportedForm
  | temporarilyUnavailable
  | privateInputsUnverifiable
  | sqlError

/-- A request to create, update or delete a Resource. -/
inductive Request where
  | create (principal key form space name : String) (spec : Json)
      (privateInputs : Option PrivateInputMap)
  | update (principal key : String) (uid : Uuid) (expectedGeneration : ℕ) (spec : Json)
      (privateInputs : Option PrivateInputMap)
  | delete (principal key : String) (uid : Uuid) (expectedGeneration : ℕ)

namespace Request

/-- Who asks. -/
def principal : Request → String
  | create principal .. | update principal .. | delete principal .. => principal

/-- The idempotency key. -/
def key : Request → String
  | create _ key .. | update _ key .. | delete _ key .. => key

/-- The private inputs, of a create or an update. -/
def privateInputs : Request → Option PrivateInputMap
  | create _ _ _ _ _ _ inputs | update _ _ _ _ _ inputs => inputs
  | delete .. => none

end Request

/-- `fingerprintDomain`. -/
def fingerprintDomain : String := "takoform-v2-request-fingerprint\x00"

/-- `fingerprintPrefix`. -/
def fingerprintPrefix : String := "v2-request-sha256:"

namespace Request

/-- What `requestFingerprint` is given: method, path, expected generation and body, private
values replaced by their presence. -/
def fingerprintValue : Request → Json
  | create _ _ form space name spec inputs => createRequest form space name spec inputs.isSome
  | update _ _ uid expectedGeneration spec inputs =>
      updateRequest (toString uid) expectedGeneration spec inputs.isSome
  | delete _ _ uid expectedGeneration => deleteRequest (toString uid) expectedGeneration

/-- `requestFingerprint(…).canonical`. -/
def canonicalText (r : Request) : String := String.ofList (canonicalJson r.fingerprintValue)

/-- `requestFingerprint(…).digest`; `sha256` is the hexadecimal digest of a text. -/
def digest (sha256 : String → String) (r : Request) : String :=
  fingerprintPrefix ++ sha256 (fingerprintDomain ++ r.canonicalText)

/-- Two requests have one canonical text where their values differ in the order of members
only. -/
theorem canonicalText_eq_iff {r r' : Request} (h : r.fingerprintValue.WellFormed)
    (h' : r'.fingerprintValue.WellFormed) :
    r.canonicalText = r'.canonicalText ↔ r.fingerprintValue.Alike r'.fingerprintValue := by
  rw [← canonicalJson_eq_iff h h', canonicalText, canonicalText, String.ofList_inj]

/-- A digest is no canonical text, which is that of an object. -/
theorem digest_ne_canonicalText (sha256 : String → String) (r r' : Request) :
    r.digest sha256 ≠ r'.canonicalText := by
  have hobject : r'.canonicalText.toList.head? = some '\x7b' := by
    rw [canonicalText, String.toList_ofList]
    cases r' <;> rfl
  have hprefix : (r.digest sha256).toList.head? = some 'v' := by
    rw [digest, String.toList_append]
    rfl
  intro h
  rw [h, hobject] at hprefix
  exact absurd hprefix (by decide)

end Request

/-- What the Form, the custody of private inputs and the Host contribute to an acceptance. -/
structure Preparation where
  id : Uuid
  /-- `crypto.randomUUID()` of a created Resource. -/
  uid : Uuid
  now : Instant
  retainUntil : Instant
  backend : Backend
  /-- `sealPrivateInputs`, where the request has private inputs. -/
  sealed : SealedPrivateInputs := ⟨"[]", "", "", ⟨"", "", "", 0⟩⟩
  configuredPrivateInputs : Option ConfiguredPrivateInputs := none
  expectedConfiguredPrivateInputs : Option (Option ConfiguredPrivateInputs) := none
  references : Option (List Reference) := none
  initialOutput : Json := .obj []
  admission : Option Admission := none
  referenceGuard : Option (Db → Bool) := none
  serializeUpdatesWithPendingReferrers : Bool := false
  vetoed : Bool := false

/-- What a request's step reads from outside the database. -/
structure Circumstance where
  /-- `options.authorize`. -/
  authorized : Bool := true
  /-- `matchesPrivateInputs` of the custody, where there is one. -/
  matched : Option Bool := none
  /-- A refusal by the checks of the request's shape and the Host's capabilities. -/
  shape : Option ErrorCode := none
  /-- `form` refuses the Form of an update's target. -/
  unsupported : Bool := false
  /-- A refusal by the Form's own checks, or what they prepare. -/
  prepared : Except ErrorCode Preparation := .error .capabilityRequired
  /-- The batch commits but its caller gets an error. -/
  ackLost : Bool := false
  /-- The thrown `SqlError` says that a reference target is unavailable. -/
  referenceUnavailable : Bool := false

/-- Why an acceptance batch did not end in `accepted`. -/
inductive Failure where
  | refused (result : Acceptance)
  | thrown (referenceUnavailable : Bool)

/-- Where a replay lookup stands. -/
inductive Stage where
  /-- `replayExistingCreate` and `replayExistingUpdate`, in the route. -/
  | route
  /-- Before the fresh checks, with the target of an update or delete. -/
  | engine (target : Option ResourceRow)
  /-- `winnerAfterRace`. -/
  | winner (failure : Failure)

/-- Where a request stands. -/
inductive Process where
  /-- About to read the Operation of its key. -/
  | looking (stage : Stage)
  /-- Found one: about to check that its Resource is still the caller's, and to compare. -/
  | comparing (existing : OperationRow)
  /-- Same fingerprint: about to compare the private inputs. -/
  | matching (existing : OperationRow) (inputs : PrivateInputMap)
  /-- About to check its shape and, for an update or delete, to read its target. -/
  | entering
  /-- No Operation of its key: about to make the fresh checks. -/
  | checking (target : Option ResourceRow)
  /-- About to commit its batch. -/
  | committing (record : AcceptRecord) (preparation : Preparation)
  /-- Accepted: about to read the Operation it answers with. -/
  | reading (id : Uuid)
  /-- Not accepted, and nobody else's Operation has the key. -/
  | refusing (failure : Failure)
  /-- About to read the target again. -/
  | rereading
  | done (reply : Except ErrorCode OperationRow)
  /-- Stopped without an answer. -/
  | lost

/-- A request starts in its route. -/
def Process.start : Request → Process
  | .create .. | .update .. => .looking .route
  | .delete .. => .entering

/-- `accepted`: the record of an acceptance. -/
def Request.record (sha256 : String → String) (r : Request) (target : Option ResourceRow)
    (p : Preparation) : AcceptRecord where
  id := p.id
  resourceUid := match r with
    | .create .. => p.uid
    | .update _ _ uid .. | .delete _ _ uid _ => uid
  principal := r.principal
  key := r.key
  fingerprint := r.digest sha256
  action := match r with
    | .create .. => .create
    | .update .. => .update
    | .delete .. => .delete
  generation := match r with
    | .create .. => 1
    | _ => (target.map ResourceRow.generation).getD 0 + 1
  acceptedAt := p.now
  retainUntil := p.retainUntil
  backendId := p.backend.id
  targetKey := p.backend.targetKey
  spec := match r with
    | .create _ _ _ _ _ spec _ | .update _ _ _ _ spec _ => spec
    | .delete .. => (target.map ResourceRow.spec).getD (.obj [])
  privateInputs := r.privateInputs.map fun _ => p.sealed
  configuredPrivateInputs := r.privateInputs.bind fun _ => p.configuredPrivateInputs
  expectedConfiguredPrivateInputs := match r with
    | .update .. => p.expectedConfiguredPrivateInputs
    | _ => none

/-- The acceptance batch of a request.  A delete publishes no references and has no Form
predicate. -/
def Request.batch (r : Request) (record : AcceptRecord) (p : Preparation) : StoreAction :=
  match r with
  | .create _ _ form space name _ _ =>
      .insertCreate record form space name p.references p.initialOutput p.admission
        p.referenceGuard p.vetoed
  | .update .. =>
      .insertChange record p.references p.serializeUpdatesWithPendingReferrers p.admission
        p.referenceGuard p.vetoed
  | .delete .. => .insertChange record none false none none p.vetoed

/-- What an acceptance batch tells its caller. -/
def StoreAction.answer (db : Db) : StoreAction → Option (Db × Acceptance)
  | .insertCreate record form space name references initialOutput admission guard vetoed =>
      db.insertCreate record form space name references initialOutput admission guard vetoed
  | .insertChange record references serialize admission guard vetoed =>
      db.insertChange record references serialize admission guard vetoed
  | _ => none

/-- `ownedResource`. -/
def ownedResource (db : Db) (principal : String) (uid : Uuid) (authorized : Bool) :
    Except ErrorCode ResourceRow :=
  match db.resource uid with
  | none => .error .notFound
  | some row =>
    if row.principal ≠ principal then .error .notFound
    else if principal = "" then .error .unauthenticated
    else if authorized then .ok row
    else .error .forbidden

/-- The fresh checks of an update or delete on the target it read. -/
def targetRefusal (target : ResourceRow) (expectedGeneration : ℕ) : Option ErrorCode :=
  if target.deletedAt.isSome then some .gone
  else if target.busyOperation.isSome then some .resourceBusy
  else if target.generation ≠ expectedGeneration then some .generationConflict
  else if maxSafeInteger ≤ target.generation then some .invalidRequest
  else none

/-- The refusal a failed batch of a change stands for, once nobody else won; `none` where
the target has to be read again. -/
def Failure.code : Failure → Option ErrorCode
  | .refused .referenceConflict | .refused .dependencyConflict => some .dependencyConflict
  | .refused .resourceBusy => some .resourceBusy
  | .thrown true => some .dependencyConflict
  | .thrown false => some .sqlError
  | .refused _ => none

/-- The next statement of a request, and the database it leaves. -/
def stepRequest (sha256 : String → String) (r : Request) (db : Db) (c : Circumstance) :
    Process → Process × Db
  | .looking stage =>
      -- `store.replay`
      match db.operations.find? fun o => o.principal == r.principal && o.replayKey == r.key with
      | some existing => (.comparing existing, db)
      | none =>
        match stage with
        | .route => (.entering, db)
        | .engine target => (.checking target, db)
        | .winner failure => (.refusing failure, db)
  | .comparing existing =>
      match ownedResource db r.principal existing.resourceUid c.authorized with
      | .error code => (.done (.error code), db)
      | .ok _ =>
        if existing.requestFingerprint ≠ r.digest sha256 ∧
            existing.requestFingerprint ≠ r.canonicalText then
          (.done (.error .idempotencyConflict), db)
        else if existing.privateInputsPresent then
          match r.privateInputs with
          | none => (.done (.error .idempotencyConflict), db)
          | some inputs => (.matching existing inputs, db)
        else (.done (.ok existing), db)
  | .matching existing _ =>
      if (db.privateInputs.any fun row => row.operationId == existing.id) then
        match c.matched with
        | none => (.done (.error .privateInputsUnverifiable), db)
        | some false => (.done (.error .idempotencyConflict), db)
        | some true => (.done (.ok existing), db)
      else (.done (.error .privateInputsUnverifiable), db)
  | .entering =>
      match c.shape with
      | some code => (.done (.error code), db)
      | none =>
        match r with
        | .create principal .. =>
            if principal = "" then (.done (.error .unauthenticated), db)
            else if c.authorized then (.looking (.engine none), db)
            else (.done (.error .forbidden), db)
        | .update principal _ uid .. | .delete principal _ uid _ =>
            match ownedResource db principal uid c.authorized with
            | .error code => (.done (.error code), db)
            | .ok target => (.looking (.engine (some target)), db)
  | .checking target =>
      let refusal := match r, target with
        | .update _ _ _ expectedGeneration _ _, some target =>
            if c.unsupported then some .unsupportedForm
            else targetRefusal target expectedGeneration
        | .delete _ _ _ expectedGeneration, some target =>
            targetRefusal target expectedGeneration
        | _, _ => none
      match refusal, c.prepared with
      | some code, _ => (.done (.error code), db)
      | none, .error code => (.done (.error code), db)
      | none, .ok p =>
        match r with
        | .delete _ _ uid _ =>
            if db.hasReferences uid then (.done (.error .dependencyConflict), db)
            else (.committing (r.record sha256 target p) p, db)
        | _ => (.committing (r.record sha256 target p) p, db)
  | .committing record p =>
      match (r.batch record p).answer db with
      | none => (.looking (.winner (.thrown c.referenceUnavailable)), db)
      | some (db', result) =>
        if c.ackLost then (.looking (.winner (.thrown c.referenceUnavailable)), db')
        else if result = .accepted then (.reading record.id, db')
        else (.looking (.winner (.refused result)), db')
  | .reading id =>
      match db.operation id with
      | none => (.done (.error .temporarilyUnavailable), db)
      | some row => (.done (.ok row), db)
  | .refusing failure =>
      match r with
      | .create _ _ _ space name _ _ =>
          -- the name may be what the batch failed on
          if db.resources.any fun row => row.space == space && row.activeName == some name then
            (.done (.error .nameConflict), db)
          else (.done (.error (failure.code.getD .dependencyConflict)), db)
      | .update .. =>
          match failure.code with
          | some code => (.done (.error code), db)
          | none => (.rereading, db)
      | .delete _ _ uid _ =>
          match failure with
          | .thrown true => (.done (.error .dependencyConflict), db)
          | .thrown false => (.done (.error .sqlError), db)
          | .refused _ =>
              if db.hasReferences uid then (.done (.error .dependencyConflict), db)
              else (.rereading, db)
  | .rereading =>
      match r with
      | .create .. => (.lost, db)
      | .update principal _ uid .. | .delete principal _ uid _ =>
          match ownedResource db principal uid c.authorized with
          | .error code => (.done (.error code), db)
          | .ok latest =>
            if latest.busyOperation.isSome then (.done (.error .resourceBusy), db)
            else (.done (.error .generationConflict), db)
  | .done reply => (.done reply, db)
  | .lost => (.lost, db)

/-! ### Any number of requests -/

/-- The database, where each request stands, and which request was accepted as which
Operation. -/
structure Intake where
  db : Db := {}
  process : ℕ → Process
  accepted : List (ℕ × Uuid) := []

/-- One move of a request, or of the rest of the system. -/
inductive IntakeAction where
  /-- The next statement of a request. -/
  | step (i : ℕ) (circumstance : Circumstance)
  /-- A request's process stops. -/
  | crash (i : ℕ)
  /-- Anything that is not an acceptance. -/
  | other (action : StoreAction)

/-- The batch of an acceptance about to commit is well formed: the id it drew is fresh. -/
def Intake.fresh (requests : ℕ → Request) (s : Intake) (i : ℕ) : Bool :=
  match s.process i with
  | .committing record p => ((requests i).batch record p).wellFormed s.db
  | _ => true

/-- The Operation a step of a request accepted: its batch committed as a whole. -/
def acceptedNow (r : Request) (db : Db) : Process → Option Uuid
  | .committing record p =>
      match (r.batch record p).answer db with
      | some (_, .accepted) => some record.id
      | _ => none
  | _ => none

/-- The machine of all interleavings of the given requests. -/
def intake (sha256 : String → String) (requests : ℕ → Request) : Machine Intake IntakeAction where
  init := { process := fun i => Process.start (requests i) }
  next s
    | .step i c =>
        if s.fresh requests i then
          let result := stepRequest sha256 (requests i) s.db c (s.process i)
          some
            { db := result.2
              process := Function.update s.process i result.1
              accepted := s.accepted ++
                ((acceptedNow (requests i) s.db (s.process i)).map fun id => (i, id)).toList }
        else none
    | .crash i => some { s with process := Function.update s.process i .lost }
    | .other action =>
        if action.isAcceptance then none else some { s with db := action.apply s.db }

end Takoserver.V2
