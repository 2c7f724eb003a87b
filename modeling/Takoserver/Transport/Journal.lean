import Takoserver.Json
import Takoserver.Lib.Machine

/-!
# The transport journal of a workflow

`createWorkflowTransportJournal` of `src/workflow-transport-journal.ts`: markers and
payloads arrive in orders of their own, and the observer is handed each payload once its
marker and every earlier sequence have been dispatched.

The observer runs inside `drain` and may call the journal again, so a call is modelled up
to the point where it invokes the observer, and goes on when the observer ends.  Which
calls the observer makes meanwhile, which errors it swallows and how it ends is left to
the run.  The calls under way are a stack.
-/

namespace Takoserver.Transport

/-! ### Values -/

/-- `WORKFLOW_TRANSPORT_MAX_PENDING_ENTRIES`. -/
def maxPendingEntries : ℕ := 64

/-- `WORKFLOW_TRANSPORT_SEQUENCE_WINDOW`. -/
def sequenceWindow : ℕ := 64

/-- `WORKFLOW_TRANSPORT_MAX_PAYLOAD_BYTES`. -/
def maxPayloadBytes : ℕ := 2 * 1024 * 1024

/-- `WorkflowTransportJournalErrorCode`. -/
inductive Code where
  | invalidFrame
  | capacity
  | unpairedFrame
  | dispatchFailed
  | sealed

/-- `WorkflowTransportJournalError`; two error objects differ by their identity. -/
structure JournalError where
  code : Code
  identity : ℕ

/-- What a call is given for a sequence number. -/
inductive Number where
  | integer (n : ℤ)
  /-- A fraction, an infinity, `NaN`, or not a number. -/
  | other

/-- The code units of a string. -/
abbrev Payload := List UInt16

/-- What a call is given for a payload. -/
inductive Value where
  | text (payload : Payload)
  /-- Not a string. -/
  | other

/-- Whether two code units are a surrogate pair. -/
def surrogates (u v : UInt16) : Bool :=
  0xD800 ≤ u && u < 0xDC00 && 0xDC00 ≤ v && v < 0xE000

/-- `new TextEncoder().encode(payload).byteLength`; a lone surrogate is replaced by a
character of three bytes. -/
def byteLength : Payload → ℕ
  | [] => 0
  | [u] => if u < 0x80 then 1 else if u < 0x800 then 2 else 3
  | u :: v :: rest =>
    if u < 0x80 then 1 + byteLength (v :: rest)
    else if u < 0x800 then 2 + byteLength (v :: rest)
    else if surrogates u v then 4 + byteLength rest
    else 3 + byteLength (v :: rest)

/-! ### The journal -/

/-- What the journal did, in order. -/
inductive Event where
  /-- A marker was accepted. -/
  | marker (sequence : ℕ)
  /-- A payload was accepted. -/
  | payload (sequence : ℕ) (payload : Payload)
  /-- The observer was invoked. -/
  | dispatch (sequence : ℕ) (payload : Payload)
  deriving DecidableEq

/-- The variables of the closure; `errors` counts the errors it made, and `log` is history
that the code does not keep. -/
structure Journal where
  markers : List ℕ := []
  payloads : List (ℕ × Payload) := []
  nextMarker : ℕ := 1
  nextDispatch : ℕ := 1
  dispatching : Bool := false
  sealed : Bool := false
  sealedError : Option JournalError := none
  failure : Option JournalError := none
  errors : ℕ := 0
  log : List Event := []

/-- The three methods; `close` is `seal`. -/
inductive Op where
  | recordMarker (sequence : Number)
  | recordPayload (sequence : Number) (payload : Value)
  | close

/-- How far a call got. -/
inductive Outcome where
  | returned
  | threw (e : JournalError)
  /-- The observer is running. -/
  | observing (sequence : ℕ)

/-- How an observer ends. -/
inductive Ending where
  | undefined
  | value
  | threw

namespace Journal

variable (j : Journal)

/-- The payload of the number is there. -/
def hasPayload (sequence : ℕ) : Bool := j.payloads.any fun x => x.1 = sequence

/-- The journal after its failure, which keeps no frames. -/
def failed (code : Code) : Journal :=
  { j with
    failure := some ⟨code, j.errors⟩
    errors := j.errors + 1
    markers := []
    payloads := [] }

/-- `fail`. -/
def fail (code : Code) : Journal × Outcome :=
  match j.failure with
  | some e => (j, .threw e)
  | none => (j.failed code, .threw ⟨code, j.errors⟩)

/-- `rejectSealed`. -/
def rejectSealed : Journal × Outcome :=
  match j.sealedError with
  | some e => (j, .threw e)
  | none =>
    ({ j with sealedError := some ⟨.sealed, j.errors⟩, errors := j.errors + 1 },
      .threw ⟨.sealed, j.errors⟩)

/-- `assertAccepting`, before a call goes on. -/
def accepting (next : Journal × Outcome) : Journal × Outcome :=
  match j.failure with
  | some e => (j, .threw e)
  | none => if j.sealed then j.rejectSealed else next

/-- `validSequence`: the sequence number, where it is in the window. -/
def validSequence : Number → Option ℕ
  | .integer n =>
    if 1 ≤ n ∧ n ≤ maxSafeInteger ∧ j.nextDispatch ≤ n ∧ n - j.nextDispatch < sequenceWindow then
      some n.toNat
    else none
  | .other => none

/-- `validatePayload`. -/
def validPayload : Value → Option Payload
  | .text p =>
    if p ≠ [] ∧ p.length ≤ maxPayloadBytes ∧ byteLength p ≤ maxPayloadBytes then some p else none
  | .other => none

/-- The markers without a payload, and the payloads without a marker. -/
def pendingUnpairedEntries : ℕ :=
  (j.markers.filter fun s => !j.hasPayload s).length +
    (j.payloads.filter fun x => decide (x.1 ∉ j.markers)).length

/-- A marker is written once. -/
def addMarker (sequence : ℕ) : Journal :=
  { j with
    markers := if sequence ∈ j.markers then j.markers else j.markers ++ [sequence]
    nextMarker := j.nextMarker + 1
    log := j.log ++ [.marker sequence] }

/-- A payload is taken in, under a sequence that has none. -/
def addPayload (sequence : ℕ) (payload : Payload) : Journal :=
  { j with
    payloads := j.payloads ++ [(sequence, payload)]
    log := j.log ++ [.payload sequence payload] }

/-- The observer is invoked, and its pair kept meanwhile. -/
def begin (payload : Payload) : Journal :=
  { j with
    dispatching := true
    log := j.log ++ [.dispatch j.nextDispatch payload] }

/-- The pair of an observer that returned is retired. -/
def retire (sequence : ℕ) : Journal :=
  { j with
    dispatching := false
    markers := j.markers.filter fun s => decide (s ≠ sequence)
    payloads := j.payloads.filter fun x => decide (x.1 ≠ sequence)
    nextDispatch := sequence + 1 }

/-- A call once its `drain` has returned. -/
def drained : Op → Journal × Outcome
  | .close =>
    match j.failure with
    | some e => (j, .threw e)
    | none =>
      if j.pendingUnpairedEntries ≠ 0 then j.fail .unpairedFrame
      else ({ j with sealed := true }, .returned)
  | _ => (j, .returned)

/-- The payload that is next, where its marker is there. -/
def ready : Option Payload :=
  if j.nextDispatch ∈ j.markers then
    (j.payloads.find? fun x => x.1 = j.nextDispatch).map Prod.snd
  else none

/-- `drain`, up to its next observer. -/
def drain (op : Op) : Journal × Outcome :=
  if j.dispatching || j.failure.isSome || j.sealed then j.drained op
  else
    match j.ready with
    | some payload => (j.begin payload, .observing j.nextDispatch)
    | none => j.drained op

/-- `drain`, from where the observer of a sequence ended. -/
def observed (op : Op) (sequence : ℕ) : Ending → Journal × Outcome
  | .undefined =>
    match j.failure with
    | some e => ({ j with dispatching := false }, .threw e)
    | none => (j.retire sequence).drain op
  | .value | .threw => fail { j with dispatching := false } .dispatchFailed

/-- A call, up to its end or its first observer. -/
def call : Op → Journal × Outcome
  | .recordMarker n =>
    j.accepting <|
      match j.validSequence n with
      | none => j.fail .invalidFrame
      | some sequence =>
        if sequence ≠ j.nextMarker then j.fail .invalidFrame
        else if !j.hasPayload sequence && maxPendingEntries ≤ j.pendingUnpairedEntries then
          j.fail .capacity
        else (j.addMarker sequence).drain (.recordMarker n)
  | .recordPayload n v =>
    j.accepting <|
      match j.validSequence n with
      | none => j.fail .invalidFrame
      | some sequence =>
        if j.hasPayload sequence then j.fail .invalidFrame
        else
          match validPayload v with
          | none => j.fail .invalidFrame
          | some payload =>
            if sequence ∉ j.markers ∧ maxPendingEntries ≤ j.pendingUnpairedEntries then
              j.fail .capacity
            else (j.addPayload sequence payload).drain (.recordPayload n v)
  | .close =>
    match j.failure with
    | some e => (j, .threw e)
    | none =>
      if j.dispatching then j.rejectSealed
      else if j.sealed then (j, .returned)
      else j.drain .close

/-! ### History -/

/-- What the observer was invoked with, in order. -/
def dispatched : List (ℕ × Payload) :=
  j.log.filterMap fun
    | .dispatch sequence payload => some (sequence, payload)
    | _ => none

end Journal

/-! ### All sequences of calls -/

/-- A call whose observer is running. -/
structure Activation where
  op : Op
  sequence : ℕ

/-- What a call answered. -/
inductive Result where
  | returned
  | threw (e : JournalError)

/-- The journal, the calls under way, the innermost first, and what calls answered so far. -/
structure System where
  journal : Journal := {}
  running : List Activation := []
  answers : List (Op × Result) := []

/-- One move: a call, or the end of an observer. -/
inductive Action where
  /-- A call: of the innermost observer, or of the adapter where none is running. -/
  | call (op : Op)
  /-- The innermost observer ends. -/
  | observed (ending : Ending)

/-- A call has got so far. -/
def System.after (s : System) (op : Op) (running : List Activation) (r : Journal × Outcome) :
    System :=
  match r.2 with
  | .returned => { s with
      journal := r.1
      running := running
      answers := s.answers ++ [(op, .returned)] }
  | .threw e => { s with
      journal := r.1
      running := running
      answers := s.answers ++ [(op, .threw e)] }
  | .observing sequence => { s with
      journal := r.1
      running := ⟨op, sequence⟩ :: running }

/-- The machine of all sequences of calls and endings. -/
def journals : Machine System Action where
  init := {}
  next s
    | .call op => some (s.after op s.running (s.journal.call op))
    | .observed ending =>
      match s.running with
      | [] => none
      | a :: rest => some (s.after a.op rest (s.journal.observed a.op a.sequence ending))

end Takoserver.Transport
