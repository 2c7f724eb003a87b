import Takoserver.Ai.Models

/-!
# The journal of chat requests

`createAiRequestStore` of `src/ai-requests.ts`: the row of table `idempotency`
(`migrations/0004_commerce.sql`) one idempotency key has, and the statements
that read and advance it.  `body_json` is kept as the record it encodes, and
comparing two canonical encodings as comparing the records.
-/

namespace Takoserver.Ai

/-- Milliseconds. -/
abbrev Instant := ℕ

/-- `RETENTION_MS`. -/
def retentionMs : ℕ := 24 * 60 * 60 * 1000

/-- The phases before the answer. -/
inductive PendingPhase where
  | claimed
  | ready
  | dispatched
  deriving DecidableEq

/-- A request whose answer is not there yet. -/
structure AiPendingRequest where
  phase : PendingPhase
  requestId : String
  ceilingMicros : ℕ
  deriving DecidableEq

/-- The phases after the answer. -/
inductive SettledPhase where
  | staged
  | completed
  deriving DecidableEq

/-- A request with its answer. -/
structure AiSettledRequest where
  phase : SettledPhase
  requestId : String
  ceilingMicros : ℕ
  actualMicros : ℕ
  responseStatus : ℕ
  responseBody : Json
  usageModel : Option String
  inputTokens : ℕ
  outputTokens : ℕ
  deriving DecidableEq

/-- A completed receipt of the first money policy, in cents. -/
structure AiLegacySettledRequest where
  requestId : String
  ceilingMinor : ℕ
  actualMinor : ℕ
  responseStatus : ℕ
  responseBody : Json
  usageModel : Option String
  inputTokens : ℕ
  outputTokens : ℕ
  deriving DecidableEq

/-- What the row of a request records. -/
inductive AiRequestRecord where
  | pending (p : AiPendingRequest)
  | settled (r : AiSettledRequest)
  | legacy (l : AiLegacySettledRequest)
  | rejected (responseStatus : ℕ) (responseBody : Json)
  deriving DecidableEq

/-- `scope_key`: an organization and one of its idempotency keys. -/
structure Scope where
  organizationId : String
  idempotencyKey : String
  deriving DecidableEq

/-- A row of `idempotency`. -/
structure Row where
  scope : Scope
  fingerprint : String
  status : ℕ
  record : AiRequestRecord
  expiresAt : Instant
  deriving DecidableEq

/-- The rows of `ai_requests`. -/
abbrev Journal := List Row

/-- `AiRequestStoreError`. -/
inductive StoreError where
  | fingerprintConflict
  | stateConflict
  | stateUnavailable

/-! ### Reading -/

/-- `positiveStatus`. -/
def positiveStatus (status : ℕ) : Bool := decide (200 ≤ status ∧ status ≤ 599)

/-- All are safe integers. -/
def safeIntegers (values : List ℕ) : Bool := values.all fun n => decide (n ≤ maxSafeInteger)

/-- The statuses of `idempotency` a pending record is stored under. -/
def PendingPhase.status : PendingPhase → ℕ
  | .claimed => 100
  | .ready => 101
  | .dispatched => 102

/-- `parseRecord`; `none` where the row is not one this module writes. -/
def parseRecord (status : ℕ) (record : AiRequestRecord) : Option AiRequestRecord :=
  match record with
  | .pending p =>
    if status = p.phase.status ∧ safeIntegers [p.ceilingMicros] then some record else none
  | .settled r =>
    if ((status = 202 ∧ r.phase = .staged) ∨ (status = r.responseStatus ∧ r.phase = .completed)) ∧
        positiveStatus r.responseStatus ∧
        safeIntegers [r.ceilingMicros, r.actualMicros, r.inputTokens, r.outputTokens] then
      some record
    else none
  | .legacy l =>
    if status = l.responseStatus ∧ positiveStatus l.responseStatus ∧
        safeIntegers [l.ceilingMinor, l.actualMinor, l.inputTokens, l.outputTokens] ∧
        (minorToMicros l.ceilingMinor).isSome ∧ (minorToMicros l.actualMinor).isSome then
      some record
    else none
  | .rejected responseStatus _ =>
    if status = responseStatus ∧ positiveStatus responseStatus then some record else none

theorem parseRecord_eq_some {status : ℕ} {record record' : AiRequestRecord}
    (h : parseRecord status record = some record') : record' = record := by
  unfold parseRecord at h
  split at h <;> exact (Option.some.inj (Option.ite_none_right_eq_some.mp h).2).symm

/-- `read`. -/
def read (journal : Journal) (scope : Scope) (fingerprint : String) (now : Instant) :
    Except StoreError AiRequestRecord :=
  match Table.find Row.scope journal scope with
  | none => .error .stateUnavailable
  | some row =>
    if row.expiresAt ≤ now then .error .stateUnavailable
    else if row.fingerprint ≠ fingerprint then .error .fingerprintConflict
    else
      match parseRecord row.status row.record with
      | some record => .ok record
      | none => .error .stateUnavailable

/-- `lookupCompletedLegacy`. -/
def lookupCompletedLegacy (journal : Journal) (scope : Scope) (fingerprint : String)
    (now : Instant) : Except StoreError (Option AiLegacySettledRequest) :=
  match Table.find Row.scope journal scope with
  | none => .ok none
  | some row =>
    if row.expiresAt ≤ now then .error .stateUnavailable
    else if row.fingerprint ≠ fingerprint then .error .fingerprintConflict
    else
      match parseRecord row.status row.record with
      | some (.legacy l) => .ok (some l)
      | some _ => .ok none
      | none => .error .stateUnavailable

/-! ### Writing -/

/-- `claim`'s `INSERT OR IGNORE`; `none` where the key has a row. -/
def insertClaim (journal : Journal) (scope : Scope) (fingerprint : String) (p : AiPendingRequest)
    (now : Instant) : Option Journal :=
  match Table.find Row.scope journal scope with
  | some _ => none
  | none => some (journal ++ [{ scope, fingerprint, status := 100, record := .pending p,
                                expiresAt := now + retentionMs }])

/-- A move of the state machine around one paid inference. -/
inductive Transition where
  | ready (p : AiPendingRequest)
  | dispatched (p : AiPendingRequest)
  | stage (r : AiSettledRequest)
  | finish (r : AiSettledRequest)
  | reject (responseStatus : ℕ) (responseBody : Json)
  deriving DecidableEq

namespace Transition

/-- The status of the row a transition is for. -/
def fromStatus : Transition → ℕ
  | ready _ | reject .. => 100
  | dispatched _ => 101
  | stage _ => 102
  | finish _ => 202

/-- The status it leaves. -/
def toStatus : Transition → ℕ
  | ready _ => 101
  | dispatched _ => 102
  | stage _ => 202
  | finish r => r.responseStatus
  | reject responseStatus _ => responseStatus

/-- The record it leaves. -/
def record : Transition → AiRequestRecord
  | ready p => .pending { p with phase := .ready }
  | dispatched p => .pending { p with phase := .dispatched }
  | stage r => .settled { r with phase := .staged }
  | finish r => .settled { r with phase := .completed }
  | reject responseStatus responseBody => .rejected responseStatus responseBody

end Transition

/-- The `WHERE` of a transition's `UPDATE`. -/
def Row.takes (row : Row) (scope : Scope) (fingerprint : String) (t : Transition)
    (now : Instant) : Bool :=
  decide (row.scope = scope ∧ row.fingerprint = fingerprint ∧ row.status = t.fromStatus ∧
    now < row.expiresAt)

/-- The row a transition leaves. -/
def Row.after (row : Row) (t : Transition) : Row :=
  { row with status := t.toStatus, record := t.record }

/-- The `UPDATE` of a transition; `none` where it changes no row. -/
def transition (journal : Journal) (scope : Scope) (fingerprint : String) (t : Transition)
    (now : Instant) : Option Journal :=
  if journal.any fun row => row.takes scope fingerprint t now then
    some (Table.update (fun row => row.takes scope fingerprint t now) (·.after t) journal)
  else none

/-! ### What the statements do -/

section Statements

variable {journal journal' : Journal} {scope : Scope} {fingerprint : String} {now : Instant}

/-- What is read is the record of an unexpired row with the fingerprint. -/
theorem read_eq_ok {record : AiRequestRecord} (h : read journal scope fingerprint now = .ok record) :
    ∃ row ∈ journal, row.scope = scope ∧ row.fingerprint = fingerprint ∧ now < row.expiresAt ∧
      row.record = record ∧ parseRecord row.status row.record = some record := by
  unfold read at h
  split at h
  · cases h
  · next row hfind =>
    obtain ⟨hrow, hscope⟩ := Table.find_some hfind
    split_ifs at h with hexpired hfp
    split at h
    · next hparse =>
      cases h
      exact ⟨row, hrow, hscope, not_not.mp hfp, not_le.mp hexpired, (parseRecord_eq_some hparse).symm, hparse⟩
    · cases h

/-- The receipt the lookup answers with is the row's. -/
theorem lookupCompletedLegacy_eq_some {l : AiLegacySettledRequest}
    (h : lookupCompletedLegacy journal scope fingerprint now = .ok (some l)) :
    ∃ row ∈ journal, row.scope = scope ∧ row.fingerprint = fingerprint ∧
      row.record = .legacy l := by
  unfold lookupCompletedLegacy at h
  split at h
  · cases h
  next row hfind =>
  obtain ⟨hrow, hscope⟩ := Table.find_some hfind
  split_ifs at h with hexpired hfp
  split at h
  · next hparse =>
    cases h
    exact ⟨row, hrow, hscope, not_not.mp hfp, (parseRecord_eq_some hparse).symm⟩
  · cases h
  · cases h

theorem read_of_mem (hn : (journal.map Row.scope).Nodup) {row : Row} (hrow : row ∈ journal)
    (hnow : now < row.expiresAt) (hparse : parseRecord row.status row.record = some row.record) :
    read journal row.scope row.fingerprint now = .ok row.record := by
  unfold read
  rw [Table.find_of_mem hn hrow]
  dsimp only
  rw [if_neg (not_le.mpr hnow), if_neg (not_not.mpr rfl), hparse]

/-- An insert finds no row of the scope, and appends one. -/
theorem insertClaim_eq_some {p : AiPendingRequest}
    (h : insertClaim journal scope fingerprint p now = some journal') :
    (∀ row ∈ journal, row.scope ≠ scope) ∧
      journal' = journal ++ [{ scope, fingerprint, status := 100, record := .pending p,
                               expiresAt := now + retentionMs }] := by
  unfold insertClaim at h
  split at h
  · cases h
  · next hnone => exact ⟨Table.find_none.mp hnone, (Option.some.inj h).symm⟩

/-- A transition that changes a row moves the one row of its key, from the status it wants. -/
theorem transition_eq_some {t : Transition} (hn : (journal.map Row.scope).Nodup)
    (h : transition journal scope fingerprint t now = some journal') :
    ∃ row ∈ journal, row.scope = scope ∧ row.fingerprint = fingerprint ∧
      row.status = t.fromStatus ∧ now < row.expiresAt ∧
      journal' = Table.put Row.scope (row.after t) journal := by
  obtain ⟨hany, hjournal⟩ := Option.ite_none_right_eq_some.mp h
  cases hjournal
  obtain ⟨row, hrow, htakes⟩ := List.any_eq_true.mp hany
  obtain ⟨hscope, hfp, hstatus, hnow⟩ := of_decide_eq_true htakes
  refine ⟨row, hrow, hscope, hfp, hstatus, hnow, ?_⟩
  refine Table.update_eq_put hn hrow htakes rfl fun r _ hr => ?_
  exact (of_decide_eq_true hr).1.trans hscope.symm

end Statements

end Takoserver.Ai
