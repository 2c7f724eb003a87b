import Takoserver.Lib.Machine
import Takoserver.Workflow.Tables

/-!
# Runs, callers and the host of workflow instances

`createWorkflowRuntime` of `src/workflow-execution.ts`, on the instance store of
`src/workflow-instances.ts`.  A *run* is a claimed instance: its controller holds a lease in the
row, its application code runs in a context of the host, and each step of the application is a
driver call that reads and writes the journal.  Between two statements of a run anything may
happen, and a controller that is lost takes no further step.

The machine has any number of runs and of callers.  A caller acts on a row that it has read at any
time before; a reading of the clock is used at any time after.  What the host owes is its
documented protocol: a context that has been stopped, or whose deadline is over, executes no
application code again, and its deadline is extended only before that.

Two things are left open, so that the machine does more than the code: a driver call may go on
after its run has started to finish, and a termination is published whether or not its stop has
been proven.
-/

namespace Takoserver.Workflow

open Db (Assignment Event Outcome PendingWait)

/-! ### Driver calls -/

/-- What a driver call gives the application. -/
inductive Answer where
  | result (resultJson : Option String)
  | error (reason : StepError)
  /-- An error record that cannot be read. -/
  | unavailable

/-- `memo`. -/
def memo (p : StepRow) : Answer :=
  if p.state = .errored then
    match p.error with
    | some reason => .error reason
    | none => .unavailable
  else .result p.resultJson

/-- How a call goes on with the row that `changeStep` or `step` reads back. -/
inductive Then where
  /-- The step is looked at. -/
  | hold
  /-- Its effect is due. -/
  | effect
  | memo
  /-- A sleep parks until the wake-up that the row has. -/
  | park
  | parkUntil (wakeAt : Instant)
  | throw (reason : StepError)
  deriving DecidableEq

/-- A driver call between two of its statements. -/
inductive Call where
  | idle
  /-- The run was runnable; the row of the name is about to be read. -/
  | named (kind : StepKind) (key : String)
  /-- The row was not settled; `step` is about to read it. -/
  | prepared (key : String) (config : StepConfig)
  /-- `step` found no row and is about to insert one. -/
  | inserting (key : String) (config : StepConfig)
  /-- The row that `step` returned. -/
  | holds (key : String) (row : StepRow)
  /-- The effect of a `do` is about to run. -/
  | due (key : String) (row : StepRow)
  | running (key : String) (row : StepRow)
  /-- A wait has found its event. -/
  | taking (key : String) (row : StepRow) (w : EventWhere)
  /-- A wait has found none. -/
  | unmet (key : String) (row : StepRow) (timeoutAt : Instant)
  /-- `changeStep` is about to write. -/
  | writing (key : String) (row : StepRow) (assignment : Assignment) (next : Then)
  /-- It has written, and is about to read the row back. -/
  | wrote (key : String) (next : Then)
  | parking (key : String) (status : Status) (wakeAt : Instant)
  /-- The call never resolves. -/
  | over
  deriving DecidableEq

/-- `retryDelays` and `secondsValue`, on what the application asks for. -/
def StepConfig.valid : StepConfig → Bool
  | .run delays => decide (delays.length ≤ 99) && delays.all fun delay => decide (delay ≤ 43200)
  | .sleep seconds => decide (seconds ≤ maxSeconds)
  | .wait _ seconds => decide (1 ≤ seconds ∧ seconds ≤ maxSeconds)

/-! ### Runs -/

/-- A claimed instance: the controller, and the context of the host. -/
structure Run where
  identity : RunIdentity
  leaseMs : ℕ
  /-- The last reading of the clock that the lease was computed from. -/
  sampled : Instant
  opened : Bool := false
  /-- The host has acknowledged a stop, or the context is never opened. -/
  stopped : Bool := false
  /-- The deadline of the context. -/
  contextUntil : Instant
  /-- The lease that the heartbeat has written, before the host is told. -/
  renewing : Option Instant := none
  /-- A `stop` of the run has returned, to any caller. -/
  ended : Bool := false
  /-- The outcome that `finish` latched. -/
  outcome : Option Outcome := none
  call : Call := .idle
  /-- What the last driver call gave the application. -/
  answer : Option Answer := none

namespace Run

variable (run : Run) (db : Db) (clock : Instant)

/-- The context may execute application code. -/
def alive : Bool := run.opened && !run.stopped && decide (clock < run.contextUntil)

/-- What a run does next. -/
inductive Step where
  /-- The context that `openPaused` registers, and the check after it.  A paused context evaluates
  nothing of the application, so the check before it and the opening are part of this step. -/
  | start (timestamp : Instant) (live : Bool)
  /-- The host acknowledges a stop. -/
  | stop
  /-- `stop` returns without an acknowledgement. -/
  | lapse (timestamp : Instant)
  /-- `clearOwner`. -/
  | release
  | heartbeat (timestamp : Instant) (live : Bool)
  /-- `extendDeadline`, after the heartbeat. -/
  | extend
  /-- `finish` is called. -/
  | latch (outcome : Outcome)
  | terminalize (timestamp : Instant) (live : Bool)
  /-- A driver call comes in. -/
  | begin (kind : StepKind) (key : String) (timestamp : Instant) (live : Bool)
  /-- The row is read, and the call prepared. -/
  | look (config : StepConfig)
  /-- `step` reads the row. -/
  | find
  | insert (timestamp : Instant) (live : Bool)
  | readBack
  /-- What is to be done with the row. -/
  | decide (timestamp : Instant)
  /-- The effect starts. -/
  | effect
  /-- The effect has a value, or has thrown. -/
  | settle (value : Option (Option String)) (timestamp : Instant)
  /-- A wait without an event looks at the clock. -/
  | expire (timestamp : Instant)
  | take (timestamp : Instant) (live : Bool)
  | write (timestamp : Instant) (live : Bool)
  | park (timestamp : Instant) (live : Bool)

/-- What a step of a run leaves: `consumed` and `journaled` are for the history. -/
structure Result where
  db : Db
  run : Run
  consumed : Option (EventRow × String) := none
  /-- The outcome of an attempt was journaled. -/
  journaled : Option String := none

/-- The call of the run becomes another. -/
def goes (call : Call) : Result := { db, run := { run with call } }

/-- The call ends with an answer. -/
def answers (answer : Answer) : Result :=
  { db, run := { run with call := .idle, answer := some answer } }

/-- `look`: a settled row is the answer, a row of another kind a mismatch. -/
def look (kind : StepKind) (key : String) (config : StepConfig) : Result :=
  match db.readStep run.identity.toIncarnation key with
  | some row =>
    if row.state.settled then run.answers db (memo row)
    else if row.config.kind ≠ kind then run.goes db .over
    else if config.valid then run.goes db (.prepared key config)
    else run.goes db .idle
  | none => if config.valid then run.goes db (.prepared key config) else run.goes db .idle

/-- `step` with the row of the name. -/
def find (key : String) (config : StepConfig) : Call :=
  match db.readStep run.identity.toIncarnation key with
  | some row =>
    if !row.state.settled && row.config.kind ≠ config.kind then .over else .holds key row
  | none => .inserting key config

/-- The step is read again after a write. -/
def readBack (key : String) (next : Then) : Result :=
  match db.readStep run.identity.toIncarnation key with
  | none => run.goes db .over
  | some row =>
    match next with
    | .hold => run.goes db (.holds key row)
    | .effect => run.goes db (.due key row)
    | .memo => run.answers db (memo row)
    | .park =>
      match row.wakeAt with
      | some wakeAt => run.goes db (.parking key .sleeping wakeAt)
      | none => run.goes db .over
    | .parkUntil wakeAt => run.goes db (.parking key .sleeping wakeAt)
    | .throw reason => run.answers db (.error reason)

/-- The instant a sleep ends. -/
def sleepWake (row : StepRow) (seconds : ℕ) : Instant :=
  row.wakeAt.getD (row.createdAt + seconds * 1000)

/-- The instant a wait is over. -/
def waitTimeout (row : StepRow) (seconds : ℕ) : Instant :=
  row.timeoutAt.getD (row.createdAt + seconds * 1000)

/-- What a call does with the row that it holds. -/
def decides (key : String) (row : StepRow) (timestamp : Instant) : Call :=
  match row.config with
  | .run _ =>
    if row.state = .retryWait then
      match row.wakeAt with
      | none => .over
      | some wakeAt =>
        if timestamp < wakeAt then .parking key .sleeping (min wakeAt run.identity.deadlineAt)
        else .writing key row .resume .effect
    else .due key row
  | .sleep seconds =>
    if run.identity.deadlineAt < sleepWake row seconds then .over
    else if sleepWake row seconds ≤ timestamp then .writing key row (.complete none) .memo
    else if row.state = .pending then
      .writing key row (.sleep (sleepWake row seconds)) .park
    else
      match row.wakeAt with
      | some wakeAt => .parking key .sleeping wakeAt
      | none => .over
  | .wait type seconds =>
    if row.state = .pending then
      .writing key row (.await type (waitTimeout row seconds)) .hold
    else
      match db.nextEvent run.identity.toIncarnation type (waitTimeout row seconds) with
      | some e => .taking key row ⟨e.eventId, type, waitTimeout row seconds⟩
      | none => .unmet key row (waitTimeout row seconds)

/-- What a `do` journals of an attempt, under the plan of the row. -/
def attempted (key : String) (row : StepRow) (value : Option (Option String))
    (timestamp : Instant) : Call :=
  match value, row.config with
  | some resultJson, _ => .writing key row (.complete resultJson) .memo
  | none, .run delays =>
    match delays[row.retryProgress.getD 0]? with
    | none => .writing key row (.errored .stepFailed) (.throw .stepFailed)
    | some delay => .writing key row
        (.retry (row.retryProgress.getD 0 + 1) (timestamp + delay * 1000))
        (.parkUntil (min (timestamp + delay * 1000) run.identity.deadlineAt))
  | none, _ => .over

/-- The write is the outcome of an attempt of a `do`. -/
def journals (row : StepRow) (assignment : Assignment) : Bool :=
  decide (row.config.kind = .run) &&
    match assignment with
    | .complete _ | .errored _ | .retry _ _ => true
    | _ => false

/-- `stop` returns without an acknowledgement. -/
def lapses (timestamp : Instant) : Bool :=
  match db.read run.identity.toInstanceKey with
  | none => true
  | some r => !r.claimedBy run.identity || !r.leased timestamp ||
      decide (run.identity.deadlineAt ≤ timestamp)

/-- The application may end with the outcome: no driver call is in flight, and no step of the
journal is unsettled. -/
def concludes : Outcome → Bool
  | .complete _ => decide (run.call = .idle) &&
      db.steps.all fun p => !decide (p.execution.executionId = run.identity.executionId ∧
        p.execution.createdAt = run.identity.createdAt) || p.state.settled
  | .failed _ => true

/-- One statement of a run. -/
def step (run : Run) (db : Db) (clock : Instant) : Step → Option Result
  | .start timestamp live =>
      if timestamp ≤ clock ∧ run.opened = false ∧ run.stopped = false then
        some { db, run :=
          if db.runExists run.identity timestamp live then { run with opened := true }
          else { run with stopped := true, ended := true } }
      else none
  | .stop =>
      if run.opened then some { db, run := { run with stopped := true, ended := true } } else none
  | .lapse timestamp =>
      if timestamp ≤ clock ∧ run.lapses db timestamp = true then
        some { db, run := { run with ended := true } }
      else none
  | .release => if run.ended then some { db := db.clearOwner run.identity, run } else none
  | .heartbeat timestamp live =>
      if run.sampled ≤ timestamp ∧ timestamp ≤ clock ∧ run.opened = true ∧ run.renewing = none then
        let next := min run.identity.deadlineAt (timestamp + run.leaseMs)
        some
          { db := db.heartbeat run.identity next timestamp live
            run := { run with
              sampled := timestamp
              renewing := if db.runExists run.identity timestamp live then some next else none } }
      else none
  | .extend =>
      match run.renewing with
      | none => none
      | some next => some { db, run :=
          { run with
            contextUntil := if run.alive clock then next else run.contextUntil
            renewing := none } }
  | .latch outcome =>
      if run.outcome = none ∧ run.concludes db outcome = true then
        some { db, run := { run with outcome := some outcome } }
      else none
  | .terminalize timestamp live =>
      match run.outcome with
      | none => none
      | some outcome =>
        if timestamp ≤ clock ∧ run.ended = true then
          some { db := db.terminalize run.identity outcome timestamp live, run }
        else none
  | .begin kind key timestamp live =>
      if timestamp ≤ clock ∧ run.call = .idle then
        some (run.goes db
          (if db.runExists run.identity timestamp live then .named kind key else .over))
      else none
  | .look config =>
      match run.call with
      | .named kind key => if config.kind = kind then some (run.look db kind key config) else none
      | _ => none
  | .find =>
      match run.call with
      | .prepared key config => some (run.goes db (run.find db key config))
      | _ => none
  | .insert timestamp live =>
      match run.call with
      | .inserting key config =>
          if timestamp ≤ clock then
            let inserted := db.insertStep run.identity key config timestamp live
            some (run.goes inserted.1 (if inserted.2 then .wrote key .hold else .over))
          else none
      | _ => none
  | .readBack =>
      match run.call with
      | .wrote key next => some (run.readBack db key next)
      | _ => none
  | .decide timestamp =>
      match run.call with
      | .holds key row =>
          if timestamp ≤ clock then some (run.goes db (run.decides db key row timestamp)) else none
      | _ => none
  | .effect =>
      match run.call with
      | .due key row => if run.alive clock then some (run.goes db (.running key row)) else none
      | _ => none
  | .settle value timestamp =>
      match run.call with
      | .running key row =>
          if timestamp ≤ clock then some (run.goes db (run.attempted key row value timestamp))
          else none
      | _ => none
  | .expire timestamp =>
      match run.call with
      | .unmet key row timeoutAt =>
          if timestamp ≤ clock then
            some (run.goes db
              (if timeoutAt ≤ timestamp then
                .writing key row (.errored .waitTimeout) (.throw .waitTimeout)
              else .parking key .waiting (min timeoutAt run.identity.deadlineAt)))
          else none
      | _ => none
  | .take timestamp live =>
      match run.call with
      | .taking key row w =>
          if timestamp ≤ clock then
            let taken := db.consume run.identity key row.revision w timestamp live
            some { run.goes taken.1 (if taken.2 then .wrote key .memo else .over) with
              consumed := if taken.2 then
                (db.events.find? (EventRow.meets run.identity.toIncarnation w)).map fun e => (e, key)
                else none }
          else none
      | _ => none
  | .write timestamp live =>
      match run.call with
      | .writing key row assignment next =>
          if timestamp ≤ clock then
            let changed := db.changeStep run.identity key row.revision assignment timestamp live
            some { run.goes changed.1 (if changed.2 then .wrote key next else .over) with
              journaled := if changed.2 && journals row assignment then some key else none }
          else none
      | _ => none
  | .park timestamp live =>
      match run.call with
      | .parking key status wakeAt =>
          if timestamp ≤ clock ∧ run.ended = true then
            some (run.goes (db.park run.identity key status wakeAt timestamp live) .over)
          else none
      | _ => none

end Run

/-! ### Senders -/

/-- A `sendEvent` between two of its statements. -/
inductive SendStage where
  /-- `settleExpired` is about to run. -/
  | settling
  /-- The instance is about to be read. -/
  | looking
  /-- The instance that was read; in v3 its pending wait is about to be. -/
  | attempt (row : InstanceRow)
  | ready (row : InstanceRow) (wait : Option PendingWait)
  /-- The batch took nothing, and the instance is about to be read again. -/
  | again (row : InstanceRow)
  | accepted
  | refused

/-- A call of `sendEvent`, with what it has decided. -/
structure Send where
  key : InstanceKey
  event : Event
  /-- The store has the exact v3 contract. -/
  v3 : Bool
  stage : SendStage := .settling

/-- The next statement of a `sendEvent`. -/
def Send.step (send : Send) (db : Db) (live : Bool) : Option (Db × Send) :=
  match send.stage with
  | .settling =>
      some (db.settleExpired send.key send.event.timestamp, { send with stage := .looking })
  | .looking =>
      match db.visibleInstance send.key send.event.timestamp with
      | none => some (db, { send with stage := .refused })
      | some row =>
          some (db, { send with stage := if row.status.terminal then .refused else .attempt row })
  | .attempt row =>
      if send.v3 then
        let wait := if row.status = .waiting then db.readPendingWait row send.event else none
        some (db, { send with stage := .ready row wait })
      else
        let sent := db.sendLegacy row.toIncarnation send.event
        some (sent.1, { send with stage := if sent.2 then .accepted else .refused })
  | .ready row wait =>
      let sent := db.sendV3 row send.event wait live
      some (sent.1, { send with stage := if sent.2 then .accepted else .again row })
  | .again row =>
      match db.visibleInstance send.key send.event.timestamp with
      | none => some (db, { send with stage := .refused })
      | some after =>
          some (db, { send with stage :=
            if after.toIncarnation = row.toIncarnation ∧ after.status.terminal = false ∧
                after.revision ≠ row.revision then .attempt after
            else .refused })
  | .accepted => none
  | .refused => none

/-! ### The machine -/

/-- The database, the clock, and everyone who acts on it. -/
structure System where
  db : Db := {}
  clock : Instant := 0
  /-- The execution ids that `randomId` has given.  It gives none twice, so the
  `UNIQUE (execution_id)` of the table refuses no row. -/
  minted : List String := []
  /-- The rows that callers have read and may act on. -/
  seen : List InstanceRow := []
  runs : List Run := []
  sends : List Send := []
  /-- History: the events that were queued, those that a step of the name consumed, and the
  outcomes of attempts that were journaled. -/
  accepted : List EventRow := []
  consumed : List (EventRow × Incarnation × String) := []
  journaled : List (Incarnation × String) := []

/-- One move: of the clock, a caller, the sweep, a run or a sender. -/
inductive Action where
  | tick (elapsed : ℕ)
  | create (i : Incarnation) (live : Bool)
  /-- `get` and `status`. -/
  | settleExpired (key : InstanceKey) (timestamp : Instant)
  /-- The store's own `terminate`. -/
  | terminate (i : Incarnation) (timestamp : Instant)
  /-- A caller reads an instance. -/
  | read (key : InstanceKey)
  | requestTermination (j : ℕ) (timestamp : Instant)
  | clearTerminalTermination (j : ℕ) (timestamp : Instant)
  | finalizeTermination (j : ℕ) (timestamp : Instant)
  | sweep (executionIds : List String) (timestamp : Instant)
  /-- `runOne` claims the instance that it has read. -/
  | claim (j : ℕ) (owner : String) (leaseMs : ℕ) (timestamp : Instant) (live : Bool)
  | send (key : InstanceKey) (type : String) (payloadJson : Option String) (v3 : Bool)
  | sendStep (k : ℕ) (live : Bool)
  | run (i : ℕ) (step : Run.Step)

namespace System

variable (s : System)

/-- A caller's statement, stamped at most with the clock. -/
def caller (timestamp : Instant) (db : Db) : Option System :=
  if timestamp ≤ s.clock then some { s with db } else none

/-- The lease that `runOne` asks for. -/
def leaseUntil (current : InstanceRow) (leaseMs : ℕ) (timestamp : Instant) : Instant :=
  min current.deadlineAt (timestamp + leaseMs)

/-- What `runOne` asks of the row before it claims. -/
def claims (current : InstanceRow) (leaseMs : ℕ) (timestamp : Instant) : Bool :=
  !current.terminationRequested && !current.status.terminal &&
    current.wakeAt.all (fun wakeAt => decide (wakeAt ≤ timestamp)) &&
    (decide (current.runOwner = none) ||
      current.runLeaseUntil.all fun untilMs => decide (untilMs ≤ timestamp)) &&
    decide (timestamp < leaseUntil current leaseMs timestamp)

/-- The run of a claim that changed its row. -/
def claimed (current : InstanceRow) (owner : String) (leaseMs : ℕ) (timestamp : Instant) : Run where
  identity :=
    { toIncarnation := current.toIncarnation
      epoch := current.runEpoch + 1
      owner := owner
      deadlineAt := current.deadlineAt }
  leaseMs := leaseMs
  sampled := timestamp
  contextUntil := leaseUntil current leaseMs timestamp

/-- The machine. -/
def next (s : System) : Action → Option System
  | .tick elapsed => some { s with clock := s.clock + elapsed }
  | .create i live =>
      if i.createdAt ≤ s.clock ∧ i.executionId ∉ s.minted then
        some { s with db := s.db.create i live, minted := i.executionId :: s.minted }
      else none
  | .settleExpired key timestamp => s.caller timestamp (s.db.settleExpired key timestamp)
  | .terminate i timestamp => s.caller timestamp (s.db.terminate i timestamp)
  | .read key =>
      match s.db.read key with
      | none => none
      | some r => some { s with seen := s.seen ++ [r] }
  | .requestTermination j timestamp =>
      match s.seen[j]? with
      | none => none
      | some current => s.caller timestamp (s.db.requestTermination current timestamp)
  | .clearTerminalTermination j timestamp =>
      match s.seen[j]? with
      | none => none
      | some current => s.caller timestamp (s.db.clearTerminalTermination current timestamp)
  | .finalizeTermination j timestamp =>
      match s.seen[j]? with
      | none => none
      | some current => s.caller timestamp (s.db.finalizeTermination current timestamp)
  | .sweep executionIds timestamp => s.caller timestamp (s.db.sweep executionIds timestamp)
  | .claim j owner leaseMs timestamp live =>
      match s.seen[j]? with
      | none => none
      | some current =>
        if timestamp ≤ s.clock ∧ claims current leaseMs timestamp = true then
          some { s with
            db := s.db.claim current owner (leaseUntil current leaseMs timestamp) timestamp live
            runs := if s.db.instances.any (Db.claimable current timestamp live) then
              s.runs ++ [claimed current owner leaseMs timestamp] else s.runs }
        else none
  | .send key type payloadJson v3 =>
      some { s with sends := s.sends ++
        [{ key := key, event := ⟨type, payloadJson, s.clock⟩, v3 := v3 }] }
  | .sendStep k live =>
      match s.sends[k]? with
      | none => none
      | some send =>
        (send.step s.db live).map fun result =>
          { s with
            db := result.1
            sends := s.sends.set k result.2
            accepted := s.accepted ++
              result.1.events.filter (fun e => decide (s.db.lastEventId < e.eventId)) }
  | .run i step =>
      match s.runs[i]? with
      | none => none
      | some run =>
        (run.step s.db s.clock step).map fun result =>
          { s with
            db := result.db
            runs := s.runs.set i result.run
            consumed := s.consumed ++ (result.consumed.map fun c =>
              (c.1, run.identity.toIncarnation, c.2)).toList
            journaled := s.journaled ++ (result.journaled.map fun name =>
              (run.identity.toIncarnation, name)).toList }

end System

/-- The machine of all interleavings of runs, callers and senders. -/
def workflows : Machine System Action where
  init := {}
  next := System.next

end Takoserver.Workflow
