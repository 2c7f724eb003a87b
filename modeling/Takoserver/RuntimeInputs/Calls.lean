import Takoserver.RuntimeInputs.Tables

/-!
# The calls of the runtime input preparations

`createRuntimeInputPreparations` of `src/runtime-input-preparations.ts`: each call as a program over
the statements, and the machine of all interleavings of any number of calls, of any number of
clients, on any operation keys.
-/

namespace Takoserver.RuntimeInputs

open Text

variable {κ χ : Type}

/-- A call of the client, over the statements of the store. -/
abbrev Program (χ : Type) := Async (Call χ) Call.Answer Failure

/-- One statement, with what it throws. -/
def ask (c : Call χ) : Program χ c.Answer := .call c

/-- A check that reads nothing. -/
def lift {α : Type} (x : Except Failure α) : Program χ α := .ofExcept x

/-- What a call answers; nothing where it throws. -/
def attempt (c : Call χ) : Program χ (Option c.Answer) :=
  tryCatch (some <$> ask c) fun _ => pure none

/-- A text that JavaScript takes for true. -/
def truthy (value : Option String) : Option String := value.filter (· ≠ "")

/-! ### Rows -/

/-- The status a caller is told. -/
inductive WireStatus where
  | prepared
  | accepted
  | dispatched
  | consumed

/-- A row that is spent or given up has none. -/
def wireStatus : State → Option WireStatus
  | .prepared => some .prepared
  | .claimed => some .accepted
  | .dispatched => some .dispatched
  | .consumed => some .consumed
  | _ => none

/-- `RuntimeInputPreparationProjection`. -/
structure Projection where
  status : WireStatus
  operationKey : String
  applyCommitment : String
  canonicalPublicOrigin : String
  bindingNames : List String
  hostOperationId : Option String

/-- `RuntimeInputRecoveryIdentity`. -/
structure RecoveryIdentity where
  operationKey : String
  preparationId : String
  applyCommitment : String
  canonicalPublicOrigin : String
  workerResourceUid : String
  hostOperationId : String
  fence : ℕ
  leaseGeneration : Nonce

/-- `RuntimeInputClaim`. -/
structure Claim extends RecoveryIdentity where
  bindings : List (String × String)

/-- The names of a row, checked again as they are read. -/
def bindingNamesFromRow (r : Row χ) : Except Failure (List String) :=
  if r.bindingNames = [] ∨ maxProviderRuntimeInputBindings < r.bindingNames.length ∨
      ¬r.bindingNames.all bindingName ∨ ¬r.bindingNames.Nodup ∨
      sorted r.bindingNames ≠ r.bindingNames then
    throw backendUnavailable
  else pure r.bindingNames

/-- What a caller is told of a row. -/
def projection (r : Row χ) : Except Failure Projection := do
  if ¬sha256Digest r.applyCommitment then throw backendUnavailable
  match wireStatus r.state with
  | none => throw conflict
  | some status =>
    return {
      status, operationKey := r.operationKey, applyCommitment := r.applyCommitment
      canonicalPublicOrigin := r.canonicalPublicOrigin
      bindingNames := ← bindingNamesFromRow r
      hostOperationId := truthy r.hostOperationId }

/-- What recovery is told of a row that was dispatched. -/
def recoveryIdentity (r : Row χ) : Except Failure RecoveryIdentity := do
  if ¬sha256Digest r.applyCommitment then throw backendUnavailable
  match truthy r.workerResourceUid, truthy r.hostOperationId with
  | some workerResourceUid, some hostOperationId =>
    return {
      operationKey := r.operationKey, preparationId := r.preparationId
      applyCommitment := r.applyCommitment
      canonicalPublicOrigin := r.canonicalPublicOrigin
      workerResourceUid, hostOperationId, fence := r.fence
      leaseGeneration := ← validatedGeneration r.leaseGeneration }
  | _, _ => throw backendUnavailable

/-- A caller with a space sees the rows of that space. -/
def preparationVisible (r : Row χ) (authorizedSpace : Option String) : Bool :=
  decide (authorizedSpace = none ∨ r.space = authorizedSpace)

/-- A new preparation may take the key of such a row. -/
def replaceablePreparation (r : Row χ) (now : Instant) : Bool :=
  decide (r.state = .revoked ∨ r.state = .expired ∨ r.state = .indeterminate) || r.expired now

/-- The row is of the operation and names the bindings of the input. -/
def assertNames (r : Row χ) (input : RecoveryInput) : Except Failure Unit :=
  if r.organizationId ≠ input.organizationId ∨ r.operationKey ≠ input.operationKey ∨
      r.bindingNames ≠ input.bindingNames then
    throw conflict
  else pure ()

/-- A row prepared for a space is claimed in that space. -/
def assertPreparedSpace (r : Row χ) (targetSpace : String) : Except Failure Unit :=
  if r.space ≠ none ∧ r.space ≠ some targetSpace then throw conflict else pure ()

/-- The apply that executes is the one that was prepared. -/
def assertExecutingApply (r : Row χ) (executing : String) : Except Failure Unit :=
  if r.applyCommitment ≠ executing then throw applyCommitmentMismatch else pure ()

/-- The row is claimed by this owner for this target. -/
def Row.boundTo (r : Row χ) (handoff : Handoff) : Prop :=
  r.hostOperationId = some handoff.hostOperationId ∧
    r.claimedResourceUid = some handoff.resourceUid ∧ r.space = some handoff.target.space ∧
    r.workerName = some handoff.target.workerName ∧
    r.workerResourceUid = some handoff.target.workerResourceUid ∧
    r.bundleName = some handoff.target.bundleName

instance (r : Row χ) (handoff : Handoff) : Decidable (r.boundTo handoff) := by
  unfold Row.boundTo
  infer_instance

/-- The claim of the row is that of the input. -/
def assertClaimedTarget (r : Row χ) (input : RecoveryInput) : Except Failure Unit :=
  if r.claimOwner ≠ some input.claimOwner ∨ ¬r.boundTo input.handoff then
    throw conflict
  else pure ()

/-! ### Arguments -/

/-- The checks of what names a claim. -/
def validateClaimIdentity (input : ClaimIdentity) : Except Failure Unit := do
  validateOpaqueId input.organizationId
  validateOpaqueId input.preparationId
  validateOpaqueId input.claimOwner
  validateOpaqueId input.resourceUid
  if input.fence < 1 ∨ 2 ^ 53 - 1 < input.fence then throw invalidArgument
  let _ ← validatedGeneration (some input.leaseGeneration)

/-- The checks of a claim and of a recovery. -/
def normalizeClaimInput (input : RecoveryInput) : Except Failure RecoveryInput := do
  validateOpaqueId input.organizationId
  validateOperationKey input.operationKey
  validateOpaqueId input.claimOwner
  validateOpaqueId input.resourceUid
  if ¬isSpaceId input.target.space then throw invalidArgument
  validateBoundedText input.target.workerName 128
  validateBoundedText input.target.bundleName 128
  validateOpaqueId input.target.workerResourceUid
  return { input with bindingNames := ← validatedBindingNames input.bindingNames }

/-- `\s`. -/
def regexpSpace (c : Char) : Bool := boundaryWhitespace c && decide (c.toNat ≠ 0x85)

/-- `/^EXISTS\s*\(/iu`. -/
def existsExpression (sql : String) : Bool :=
  let letters := [['E', 'e'], ['X', 'x'], ['I', 'i'], ['S', 's', 'ſ'], ['T', 't'], ['S', 's', 'ſ']]
  let chars := sql.toList
  decide (6 ≤ chars.length) && (chars.zip letters).all (fun p => p.2.contains p.1) &&
    decide (((chars.drop 6).dropWhile regexpSpace).head? = some '(')

/-- A fence is a short `EXISTS` expression of one statement. -/
def validatedLeaseFence : Option SqlPredicate → Except Failure Unit
  | none => pure ()
  | some fence =>
      if ¬existsExpression fence.sql ∨ 4096 < utf16Length fence.sql ∨
          fence.sql.toList.contains ';' ∨ 80 < fence.params.length then
        throw invalidArgument
      else pure ()

/-- Recovery names the generation that was claimed. -/
def requiredRecoveryGeneration (input : RecoveryInput) : Except Failure Nonce :=
  match truthy input.expectedGeneration with
  | none => throw conflict
  | some generation => validatedGeneration (some generation)

/-! ### Shared statements -/

/-- The lease of the caller still holds, as its fence reads it. -/
def assertLeaseFence : Option SqlPredicate → Program χ Unit
  | none => pure ()
  | some fence => do
      lift (validatedLeaseFence (some fence))
      match ← attempt (.authorized fence) with
      | none => throw backendUnavailable
      | some authorized => if authorized then pure () else throw conflict

/-- A row that may still be claimed gets the nonce of its seal as its generation. -/
def ensureLiveGeneration : Option (Row χ) → Program χ (Option (Row χ))
  | none => pure none
  | some r =>
      if r.state ≠ .prepared ∧ r.state ≠ .claimed then pure (some r)
      else
        match truthy r.sealNonce with
        | none => throw backendUnavailable
        | some nonce => do
          if r.leaseGeneration = some nonce then return some r
          if r.leaseGeneration.isSome then throw backendUnavailable
          match ← attempt (.ensureGeneration r nonce) with
          | none => throw backendUnavailable
          | some _ =>
            match ← ask (.readRow r.organizationId r.operationKey) with
            | none => throw conflict
            | some observed =>
              if observed.leaseGeneration = some nonce then return some observed
              else throw conflict

/-- Closes a row that was found past its end; a failure is left to the sweep. -/
def expireExact (r : Row χ) (now : Instant) : Program χ Unit :=
  if r.state ≠ .prepared ∧ r.state ≠ .claimed then pure ()
  else if r.state = .claimed ∧ r.claimExpiresAt = none then pure ()
  else do
    let _ ← attempt (.expireExact r now)

/-- Gives up a claim whose seal does not open; a failure is left to the sweep. -/
def markClaimIndeterminate (r : Row χ) (now : Instant) : Program χ Unit := do
  let _ ← attempt (.markIndeterminate r now)

/-- The Resource the row was spent on is gone from the host. -/
def spentOnAbsentIncarnation (r : Row χ) : Program χ Bool :=
  if r.state ≠ .dispatched ∧ r.state ≠ .consumed then pure false
  else
    match truthy r.claimedResourceUid with
    | none => pure false
    | some resourceUid => do
      match ← attempt (.spentOnAbsent r.organizationId resourceUid) with
      | none => throw backendUnavailable
      | some gone => return gone

/-- Deletes a row spent on a Resource that is gone. -/
def discardSpent (r : Row χ) : Program χ Unit := do
  match ← attempt (.discardSpent r) with
  | none => throw backendUnavailable
  | some removed => if removed ≠ 1 then throw conflict

/-- Deletes a replaceable row by its key and fence alone. -/
def discardReplaceable (r : Row χ) : Program χ Unit := do
  let removed ← ask (.discardReplaceable r)
  if removed ≠ 1 then throw conflict

section Clients

variable (P : Primitives κ χ) (client : Client κ)

/-! ### Sealed material -/

/-- How long a preparation may be claimed. -/
def preparationTtlMilliseconds : ℕ := 60 * 60 * 1000
/-- How long a claim may be dispatched. -/
def claimTtlMilliseconds : ℕ := 15 * 60 * 1000

/-- The associated data of a row. -/
def canonicalAadFromRow (r : Row χ) (keyId : String) : Except Failure Json := do
  return canonicalAad r.organizationId r.operationKey r.preparationId keyId
    r.canonicalPublicOrigin r.applyCommitment (← bindingNamesFromRow r)

/-- `canonicalAad` of a normalized preparation. -/
def Preparation.aad (p : Preparation) (preparationId keyId : String) : Json :=
  canonicalAad p.organizationId p.operationKey preparationId keyId p.canonicalPublicOrigin
    p.applyCommitment p.bindingNames

/-- The row that `prepare` inserts. -/
def preparedRow (p : Preparation) (preparationId : String) (nonce : Nonce) (now : Instant) :
    Row χ where
  organizationId := p.organizationId
  operationKey := p.operationKey
  preparationId := preparationId
  applyCommitment := p.applyCommitment
  canonicalPublicOrigin := p.canonicalPublicOrigin
  bindingNames := p.bindingNames
  sealedPayload := some (P.encrypt client.current.2 nonce (p.aad preparationId client.current.1)
    (sealedPayload p))
  sealNonce := some nonce
  sealKeyId := some client.current.1
  leaseGeneration := some nonce
  state := .prepared
  fence := 1
  space := p.authorizedSpace
  expiresAt := now + preparationTtlMilliseconds
  createdAt := now
  updatedAt := now

/-- Opens the sealed material of a claimed row. -/
def decryptClaim (r : Row χ) : Except Failure Claim :=
  match r.sealedPayload, truthy r.sealNonce, truthy r.sealKeyId, truthy r.hostOperationId,
      truthy r.workerResourceUid with
  | some payload, some nonce, some keyId, some hostOperationId, some workerResourceUid => do
      if r.state ≠ .claimed ∨ r.leaseGeneration ≠ r.sealNonce ∨ r.fence < 1 ∨
          2 ^ 53 - 1 < r.fence then
        throw backendUnavailable
      match client.key keyId with
      | none => throw backendUnavailable
      | some key =>
        match P.decrypt key nonce (← canonicalAadFromRow r keyId) payload with
        | none => throw backendUnavailable
        | some plaintext =>
          let leaseGeneration ← validatedGeneration r.leaseGeneration
          let bindings ← parseSealedPayload r.applyCommitment r.canonicalPublicOrigin
            r.bindingNames plaintext
          return {
            operationKey := r.operationKey, preparationId := r.preparationId
            applyCommitment := r.applyCommitment
            canonicalPublicOrigin := r.canonicalPublicOrigin
            workerResourceUid, hostOperationId, fence := r.fence, leaseGeneration, bindings }
  | _, _, _, _, _ => throw backendUnavailable

/-- Where the seal does not open, the claim is given up. -/
def openClaim (r : Row χ) (now : Instant) : Program χ Claim :=
  tryCatch (lift (decryptClaim P client r)) fun e => do
    markClaimIndeterminate r now
    throw e

/-- A repeated preparation is answered from its row. -/
def adoptExisting (r : Row χ) (p : Preparation) : Except Failure Projection := do
  if r.organizationId ≠ p.organizationId ∨ r.operationKey ≠ p.operationKey ∨
      r.canonicalPublicOrigin ≠ p.canonicalPublicOrigin ∨
      r.applyCommitment ≠ p.applyCommitment ∨ r.bindingNames ≠ p.bindingNames then
    throw conflict
  match r.sealedPayload, truthy r.sealNonce, truthy r.sealKeyId with
  | some payload, some nonce, some keyId =>
      match client.key keyId with
      | none => throw backendUnavailable
      | some key =>
        match P.decrypt key nonce (p.aad r.preparationId keyId) payload with
        | none => throw backendUnavailable
        | some plaintext =>
          if plaintext ≠ sealedPayload p then throw conflict
          projection r
  | _, _, _ => throw backendUnavailable

/-! ### Calls -/

/-- The end of `prepare`: the values are sealed, and their row is inserted. -/
def insertSealed (input : PreparationInput) (scope : Option String) (p : Preparation)
    (now : Instant) : Program χ Projection := do
  let nonce ← ask .randomBytes
  let preparationId := derivePreparationId P p.organizationId p.operationKey
  let inserted := preparedRow P client p preparationId nonce now
  match ← attempt (.insert input scope inserted) with
  | some _ => lift (projection inserted)
  | none =>
    match ← ask (.readRow p.organizationId p.operationKey) with
    | none => throw backendUnavailable
    | some raced =>
      if ¬preparationVisible raced p.authorizedSpace then throw operationNotFound
      if raced.state = .prepared ∧ now < raced.expiresAt then
        lift (adoptExisting P client raced p)
      else throw backendUnavailable

/-- The old row of `prepare` makes room. -/
def makeRoom (existing : Row χ) (now : Instant) : Program χ Unit := do
  if ← spentOnAbsentIncarnation existing then discardSpent existing
  else if ¬replaceablePreparation existing now then throw conflict
  else discardReplaceable existing

/-- `prepare`: adopts the row of the key, replaces it, or inserts a sealed one. -/
def prepare (input : PreparationInput) (scope : Option String) : Program χ Projection := do
  let p ← lift (normalizePreparation P input client.canonicalPublicOrigin scope)
  let now ← ask .time
  match ← ask (.readRow p.organizationId p.operationKey) with
  | none => insertSealed P client input scope p now
  | some existing =>
    if ¬preparationVisible existing p.authorizedSpace then throw operationNotFound
    if existing.state = .prepared ∧ now < existing.expiresAt then
      lift (adoptExisting P client existing p)
    else
      makeRoom existing now
      insertSealed P client input scope p now

/-- `read`. -/
def read (organizationId operationKey : String) (scope : Option String) :
    Program χ (Option Projection) := do
  lift (validateOpaqueId organizationId)
  lift (validateOperationKey operationKey)
  let authorizedSpace ← lift (normalizePreparationScope scope)
  match ← ask (.readRow organizationId operationKey) with
  | none => return none
  | some r =>
    if ¬preparationVisible r authorizedSpace then return none
    let now ← ask .time
    if r.expired now then
      expireExact r now
      return none
    else if wireStatus r.state = none then return none
    else if ← spentOnAbsentIncarnation r then return none
    else return some (← lift (projection r))

/-- `pinPrepared`: the generation a later claim has to name. -/
def pinPrepared (input : ClaimInput) : Program χ Nonce := do
  let normalized ← lift (normalizeClaimInput input.toRecoveryInput)
  let executing ← lift (executingApplyCommitment P input.publicApply)
  let found ← ask (.readRow normalized.organizationId normalized.operationKey)
  match ← ensureLiveGeneration found with
  | none => throw operationNotFound
  | some r =>
    lift (assertNames r normalized)
    lift (assertExecutingApply r executing)
    lift (assertPreparedSpace r normalized.target.space)
    let now ← ask .time
    if r.state ≠ .prepared ∨ r.expired now then throw conflict
    lift (validatedGeneration r.leaseGeneration)

/-- `noEffectRevocation`: the statement that the owner of the operation executes. -/
def noEffectRevocation (input : RecoveryInput) (generation : Nonce) : Program χ NoEffect := do
  let normalized ← lift (normalizeClaimInput input)
  let generation ← lift (validatedGeneration (some generation))
  let found ← ask (.readRow normalized.organizationId normalized.operationKey)
  match ← ensureLiveGeneration found with
  | none => throw operationNotFound
  | some r =>
    lift (assertNames r normalized)
    lift (assertPreparedSpace r normalized.target.space)
    if r.leaseGeneration ≠ some generation ∨ r.sealNonce ≠ some generation ∨
        r.state ≠ .prepared ∧ r.state ≠ .claimed then
      throw conflict
    if r.state = .claimed then lift (assertClaimedTarget r normalized)
    let now ← ask .time
    return ⟨normalized, r.preparationId, generation, now⟩

/-- A claimed row is opened between two looks at the lease fence. -/
def openHeld (r : Row χ) (claimFence : Option SqlPredicate) (now : Instant) : Program χ Claim := do
  let opened ← openClaim P client r now
  assertLeaseFence claimFence
  return opened

/-- `claim` of a prepared row, whose generation is known. -/
def claimPrepared (candidate : Row χ) (normalized : RecoveryInput) (generation : Nonce)
    (executing : String) (claimFence : Option SqlPredicate) (now : Instant) :
    Program χ Claim := do
  lift (validatedLeaseFence claimFence)
  let _ ← attempt (.claim {
    input := normalized, fence := candidate.fence, sealNonce := candidate.sealNonce, generation
    executing, claimFence
    claimExpiresAt := min candidate.expiresAt (now + claimTtlMilliseconds), now })
  match ← ask (.readRow normalized.organizationId normalized.operationKey) with
  | none => throw operationNotFound
  | some r =>
    lift (assertNames r normalized)
    lift (assertExecutingApply r executing)
    if r.leaseGeneration ≠ r.sealNonce ∨ r.leaseGeneration ≠ some generation then throw conflict
    if r.state ≠ .claimed then throw conflict
    lift (assertClaimedTarget r normalized)
    assertLeaseFence claimFence
    if r.expired now then
      expireExact r now
      throw conflict
    openHeld P client r claimFence now

/-- The generation that a claim expects, where it names one. -/
def assertExpectedGeneration (r : Row χ) (input : RecoveryInput) : Except Failure Unit :=
  match input.expectedGeneration with
  | none => pure ()
  | some expected => do
      if r.leaseGeneration ≠ some (← validatedGeneration (some expected)) then throw conflict

/-- `claim`: one update takes the row, then its seal is opened. -/
def claim (input : ClaimInput) : Program χ Claim := do
  if input.claimFence.isSome ∧ truthy input.expectedGeneration = none then throw conflict
  let normalized ← lift (normalizeClaimInput input.toRecoveryInput)
  let executing ← lift (executingApplyCommitment P input.publicApply)
  let now ← ask .time
  let found ← ask (.readRow normalized.organizationId normalized.operationKey)
  match ← ensureLiveGeneration found with
  | none => throw operationNotFound
  | some candidate =>
    lift (assertNames candidate normalized)
    lift (assertExecutingApply candidate executing)
    lift (assertPreparedSpace candidate normalized.target.space)
    lift (assertExpectedGeneration candidate normalized)
    if candidate.preparationId ≠
        derivePreparationId P normalized.organizationId normalized.operationKey then
      throw backendUnavailable
    if candidate.expired now then
      expireExact candidate now
      throw conflict
    if candidate.leaseGeneration ≠ candidate.sealNonce then throw backendUnavailable
    let generation ← lift (validatedGeneration candidate.leaseGeneration)
    match candidate.state with
    | .claimed =>
      lift (assertClaimedTarget candidate normalized)
      assertLeaseFence input.claimFence
      openHeld P client candidate input.claimFence now
    | .prepared => claimPrepared P client candidate normalized generation executing input.claimFence now
    | _ => throw conflict

end Clients

/-- `abort`: an undispatched claim is given back. -/
def abort (input : ClaimIdentity) : Program χ Unit := do
  lift (validateClaimIdentity input)
  let now ← ask .time
  if (← attempt (.abort input now)) = some 1 then return
  match ← ask (.readByPreparationId input.organizationId input.preparationId) with
  | none => throw operationNotFound
  | some r =>
    if r.state = .revoked ∧ r.fence = input.fence + 1 ∧
        r.leaseGeneration = some input.leaseGeneration ∧
        r.hostOperationId = some input.claimOwner ∧
        r.claimedResourceUid = some input.resourceUid ∧ r.sealedPayload.isNone ∧
        r.sealNonce.isNone ∧ r.sealKeyId.isNone then
      return
    throw conflict

/-- `dispatch`: the point past which no claim is given back. -/
def dispatch (input : ClaimIdentity) (dispatchFence : Option SqlPredicate) : Program χ ℕ := do
  lift (validateClaimIdentity input)
  let now ← ask .time
  lift (validatedLeaseFence dispatchFence)
  if (← attempt (.dispatch input dispatchFence now)) = some 1 then return input.fence + 1
  match ← ask (.readByPreparationId input.organizationId input.preparationId) with
  | none => throw operationNotFound
  | some r =>
    if r.state = .dispatched ∧ r.fence = input.fence + 1 ∧
        r.leaseGeneration = some input.leaseGeneration ∧
        r.claimedResourceUid = some input.resourceUid ∧
        r.hostOperationId = some input.claimOwner then
      return r.fence
    if r.state = .claimed ∧ r.expired now then expireExact r now
    throw conflict

/-- `consumeDispatched`. -/
def consume (input : Consumption) : Program χ Unit := do
  lift (validateClaimIdentity input.toClaimIdentity)
  if ¬sha256Digest input.receiptDigest then throw invalidArgument
  let now ← ask .time
  if (← attempt (.consume input now)) = some 1 then return
  match ← ask (.readByPreparationId input.organizationId input.preparationId) with
  | none => throw operationNotFound
  | some r =>
    if r.state = .consumed ∧ r.leaseGeneration = some input.leaseGeneration ∧
        r.claimedResourceUid = some input.resourceUid ∧
        r.hostOperationId = some input.claimOwner ∧
        r.consumedReceiptDigest = some input.receiptDigest then
      return
    throw conflict

/-- The dispatched row a recovery speaks of. -/
def readRecoveryRow (input : RecoveryInput) : Program χ (Row χ) := do
  let generation ← lift (requiredRecoveryGeneration input)
  match ← ask (.readRow input.organizationId input.operationKey) with
  | none => throw operationNotFound
  | some r =>
    lift (assertNames r input)
    if r.state ≠ .dispatched ∧ r.state ≠ .consumed ∨ r.leaseGeneration ≠ some generation ∨
        ¬r.boundTo input.handoff then
      throw conflict
    return r

/-- `recover`. -/
def recover (input : RecoveryInput) : Program χ RecoveryIdentity := do
  let normalized ← lift (normalizeClaimInput input)
  let r ← readRecoveryRow normalized
  lift (recoveryIdentity r)

/-- `consumeRecovered`: consumes a dispatched row by its receipt. -/
def consumeRecovered (input : RecoveryInput) (receiptDigest : String) : Program χ Unit := do
  let normalized ← lift (normalizeClaimInput input)
  if ¬sha256Digest receiptDigest then throw invalidArgument
  let r ← readRecoveryRow normalized
  if r.state = .consumed then
    if r.consumedReceiptDigest = some receiptDigest then return
    throw conflict
  let leaseGeneration ← lift (validatedGeneration r.leaseGeneration)
  consume {
    organizationId := normalized.organizationId, preparationId := r.preparationId
    claimOwner := normalized.claimOwner, resourceUid := normalized.resourceUid, fence := r.fence
    leaseGeneration, receiptDigest }

/-- `abandon`: revokes a claim, dispatched or not, that its owner gives up. -/
def abandon (input : RecoveryInput) : Program χ Unit := do
  let normalized ← lift (normalizeClaimInput input)
  let generation ← lift (requiredRecoveryGeneration normalized)
  match ← ask (.readRow normalized.organizationId normalized.operationKey) with
  | none => throw operationNotFound
  | some r =>
    lift (assertNames r normalized)
    if r.leaseGeneration ≠ some generation then throw conflict
    if r.state = .revoked then
      if r.hostOperationId = some normalized.claimOwner ∧
          r.claimedResourceUid = some normalized.resourceUid then return
      throw conflict
    let exactClaimed := decide (r.state = .claimed ∧ r.claimOwner = some normalized.claimOwner ∧
      r.claimedResourceUid = some normalized.resourceUid)
    let exactDispatched := decide (r.state = .dispatched ∧
      r.hostOperationId = some normalized.claimOwner ∧
      r.claimedResourceUid = some normalized.resourceUid)
    if !exactClaimed && !exactDispatched then throw conflict
    let now ← ask .time
    let changes ← ask (.abandon normalized r.preparationId r.fence generation now)
    if changes = 1 then return
    match ← ask (.readByPreparationId normalized.organizationId r.preparationId) with
    | none => throw conflict
    | some observed =>
      if observed.state = .revoked ∧ observed.leaseGeneration = some generation ∧
          observed.hostOperationId = some normalized.claimOwner ∧
          observed.claimedResourceUid = some normalized.resourceUid then
        return
      throw conflict

/-- `revoke`. -/
def revoke (organizationId operationKey : String) : Program χ Unit := do
  lift (validateOpaqueId organizationId)
  lift (validateOperationKey operationKey)
  let now ← ask .time
  let changes ← ask (.revoke organizationId operationKey now)
  if changes = 1 then return
  match ← ask (.readRow organizationId operationKey) with
  | none => return
  | some r =>
    if r.state = .revoked ∨ r.state = .expired ∨ r.state = .consumed then return
    throw conflict

/-- `expireDue`: the sweep, and the deletion of rows closed long ago. -/
def expireDue (limit : ℕ) : Program χ ℕ := do
  if limit < 1 ∨ 1000 < limit then throw .other
  let now ← ask .time
  let changes ← ask (.expireDue now limit)
  let reclaimed ← ask (.reclaim now limit)
  return changes + reclaimed

/-! ### The machine -/

/-- A call of a client, or a write of the rest of the Host. -/
inductive Request (κ : Type) where
  | prepare (client : Client κ) (input : PreparationInput) (scope : Option String)
  | read (organizationId operationKey : String) (scope : Option String)
  | pinPrepared (input : ClaimInput)
  /-- The owner of the operation asks for the statement, and executes it. -/
  | noEffect (input : RecoveryInput) (generation : Nonce)
  | claim (client : Client κ) (input : ClaimInput)
  | abort (input : ClaimIdentity)
  | dispatch (input : ClaimIdentity) (dispatchFence : Option SqlPredicate)
  | consume (input : Consumption)
  | recover (input : RecoveryInput)
  | consumeRecovered (input : RecoveryInput) (receiptDigest : String)
  | abandon (input : RecoveryInput)
  | revoke (organizationId operationKey : String)
  | expireDue (limit : ℕ)
  | host (host : Host)

/-- What a call answers, with what it was asked. -/
inductive Answer where
  | prepared (input : PreparationInput) (projection : Projection)
  | read (organizationId operationKey : String) (projection : Option Projection)
  | pinned (input : ClaimInput) (generation : Nonce)
  | claimed (input : ClaimInput) (claim : Claim)
  | dispatched (input : ClaimIdentity) (fence : ℕ)
  | recovered (input : RecoveryInput) (identity : RecoveryIdentity)
  | done

/-- The program of a request. -/
def Request.body (P : Primitives κ χ) : Request κ → Program χ Answer
  | .prepare client input scope =>
      return .prepared input (← RuntimeInputs.prepare P client input scope)
  | .read organizationId operationKey scope =>
      return .read organizationId operationKey
        (← RuntimeInputs.read organizationId operationKey scope)
  | .pinPrepared input => return .pinned input (← RuntimeInputs.pinPrepared P input)
  | .noEffect input generation => do
      let statement ← noEffectRevocation input generation
      let _ ← ask (.noEffect statement)
      return .done
  | .claim client input => return .claimed input (← RuntimeInputs.claim P client input)
  | .abort input => do
      RuntimeInputs.abort input
      return .done
  | .dispatch input dispatchFence =>
      return .dispatched input (← RuntimeInputs.dispatch input dispatchFence)
  | .consume input => do
      RuntimeInputs.consume input
      return .done
  | .recover input => return .recovered input (← RuntimeInputs.recover input)
  | .consumeRecovered input receiptDigest => do
      RuntimeInputs.consumeRecovered input receiptDigest
      return .done
  | .abandon input => do
      RuntimeInputs.abandon input
      return .done
  | .revoke organizationId operationKey => do
      RuntimeInputs.revoke organizationId operationKey
      return .done
  | .expireDue limit => do
      let _ ← RuntimeInputs.expireDue limit
      return .done
  | .host tables => do
      ask (.host tables)
      return .done

/-- The machine of all interleavings. -/
def preparations (P : Primitives κ χ) :
    Machine (Pool (Tables χ) (Program χ Answer)) (PoolAction (Request κ) Outside) :=
  pool runs (Request.body P) {}

end Takoserver.RuntimeInputs
