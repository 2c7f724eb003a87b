import Takoserver.Lib.Async
import Takoserver.Metering.Pricing

/-!
# Provider usage, one window at a time

`createProviderMetering` of `src/provider-metering.ts` with the `recordProviderWindow` of
`src/metering.ts` it calls, over the tables of
`migrations/0014_provider_meter_checkpoints.sql` and `usage_events`.  Every statement, every
reading of the clock and every reading of a provider is one call; it may commit and its answer
be lost, and a worker may stop between any two calls.  The clock never goes back.

The packs and the catalog are those a worker is configured with.  An instant is an integer, in
milliseconds, and stands for its ISO text.
-/

namespace Takoserver.Metering

/-! ### What a worker is configured with -/

/-- `startOfUtcDay`. -/
def startOfUtcDay (value : ℤ) : ℤ := value / 86400000 * 86400000

/-- A `MeterSource` that `createProviderPack` lets through. -/
structure MeterSource where
  id : String
  meters : List String
  settlementDelaySeconds : ℕ
  maximumWindowSeconds : ℕ
  retentionSeconds : Option ℕ := none
  /-- `windowAlignment` is `utc-day`. -/
  utcDay : Bool := false
  positive : 0 < maximumWindowSeconds
  aligned : utcDay = true → maximumWindowSeconds % 86400 = 0
  deriving DecidableEq

/-- The instant no reading made at `now` goes past. -/
def MeterSource.horizon (source : MeterSource) (now : ℤ) : ℤ :=
  let rawHorizon := now - source.settlementDelaySeconds * 1000
  if source.utcDay then startOfUtcDay rawHorizon else rawHorizon

/-- A `ProviderPack` that `createProviderPack` lets through. -/
structure ProviderPack where
  id : String
  meterSources : List MeterSource
  unique : (meterSources.map MeterSource.id).Nodup

/-- `PricePlanCharge`. -/
structure PricePlanCharge where
  meter : String
  amountMinor : ℕ
  quantity : Option Decimal := none

/-- What is read here of an `Offering`. -/
structure Offering where
  providerPackRef : String
  meters : List PricePlanCharge

/-- The columns of `tf_resource_deployments` that no update assigns. -/
structure Deployment where
  tenantId : String
  id : String
  resourceUid : String
  offeringId : String
  providerPackRef : String
  createdAt : ℤ
  deriving DecidableEq

/-- What `recordProviderWindow` digests. -/
structure WindowKey where
  organizationId : String
  resourceUid : String
  deploymentId : String
  meterSourceId : String
  from_ : ℤ
  until_ : ℤ

/-- What a worker is configured with. -/
structure Config where
  packs : List ProviderPack
  findOffering : String → Option Offering
  /-- `canonicalDigest`. -/
  canonicalDigest : WindowKey → String
  /-- `left.localeCompare(right) <= 0`. -/
  localeLe : String → String → Bool
  /-- `allocationAdmissionResolver` is set. -/
  qualified : Bool := false

/-- The pack of an id: of two, the map keeps the later. -/
def Config.pack (config : Config) (id : String) : Option ProviderPack :=
  config.packs.reverse.find? fun pack => pack.id = id

/-! ### Windows -/

/-- A reading of a source: where it begins, and what the clock of its worker read. -/
structure Window where
  deployment : Deployment
  source : MeterSource
  from_ : ℤ
  now : ℤ
  deriving DecidableEq

/-- Where a reading ends. -/
def Window.until_ (w : Window) : ℤ :=
  min (w.source.horizon w.now) (w.from_ + w.source.maximumWindowSeconds * 1000)

/-- What a window is deduplicated by. -/
def Window.key (w : Window) : WindowKey where
  organizationId := w.deployment.tenantId
  resourceUid := w.deployment.resourceUid
  deploymentId := w.deployment.id
  meterSourceId := w.source.id
  from_ := w.from_
  until_ := w.until_

/-- Where the first reading of a deployment begins. -/
def MeterSource.start (source : MeterSource) (deployment : Deployment) : ℤ :=
  if source.utcDay then startOfUtcDay deployment.createdAt else deployment.createdAt

/-- The text the request id of a window and a meter is. -/
def requestId (config : Config) (w : Window) (meter : String) : String :=
  "provider:" ++ String.ofList ((config.canonicalDigest w.key).toList.drop 7) ++ ":" ++ meter

/-! ### Prices -/

/-- One entry of what a source answers; a quantity that is no finite number, or a negative one,
is `none`. -/
structure MeterUsage where
  meter : String
  quantity : Option Decimal

/-- One line of `PricedUsage`. -/
structure PricedLine where
  meter : String
  quantity : RationalMicros
  amountMicros : ℕ
  amountNumeratorMicros : ℕ
  amountDenominator : ℕ

/-- `validateUsage`. -/
def validateUsage (usage : List MeterUsage) (source : MeterSource) :
    Option (List (String × Decimal)) :=
  if usage.length > source.meters.length then none
  else if ¬(usage.map MeterUsage.meter).Nodup then none
  else usage.mapM fun item =>
    if item.meter ∈ source.meters then item.quantity.map fun quantity => (item.meter, quantity)
    else none

/-- One line of `priceMeteredUsage`. -/
def priceLine (plan : List PricePlanCharge) (meter : String) (exactQuantity : RationalMicros) :
    Option PricedLine := do
  let rate ← plan.reverse.find? fun charge => charge.meter = meter
  let divisor := decimalRational (rate.quantity.getD ⟨1, 0⟩)
  let micros ← minorToMicros rate.amountMinor
  let exact ← rational (exactQuantity.numerator * micros * divisor.denominator)
    (exactQuantity.denominator * divisor.numerator)
  let amountMicros ← floorPricedMicros exact
  return {
    meter, quantity := exactQuantity, amountMicros
    amountNumeratorMicros := exact.numerator, amountDenominator := exact.denominator }

/-- `priceMeteredUsage` of quantities of distinct meters; `none` where it throws. -/
def priceMeteredUsage (config : Config) (plan : List PricePlanCharge)
    (usage : List (String × Decimal)) : Option (List PricedLine) := do
  let sorted := usage.insertionSort fun a b => config.localeLe a.1 b.1 = true
  let lines ← sorted.mapM fun item => priceLine plan item.1 (decimalRational item.2)
  let exactTotal := (lines.filterMap fun line =>
    rational line.amountNumeratorMicros line.amountDenominator).foldl addRational .zero
  let _ ← ceilPricedMicros exactTotal
  return lines

/-! ### Tables -/

/-- `usage_events`. -/
structure UsageEvent where
  requestId : String
  organizationId : String
  resourceUid : String
  meter : String
  quantity : RationalMicros
  amountMicros : ℕ
  /-- `amount_unit` is `usd-micros-v2`. -/
  exactUnit : Bool := true
  amountNumeratorMicros : Option ℕ
  amountDenominator : Option ℕ
  createdAt : ℤ
  admissionPolicyJson : Option String := none
  rollupId : Option String := none

/-- `sameEvent`. -/
def sameEvent (row event : UsageEvent) : Bool :=
  row.organizationId == event.organizationId && row.resourceUid == event.resourceUid &&
    row.meter == event.meter && row.quantity == event.quantity &&
    row.amountMicros == event.amountMicros && row.exactUnit == event.exactUnit &&
    row.amountNumeratorMicros == event.amountNumeratorMicros &&
    row.amountDenominator == event.amountDenominator

/-- `provider_meter_checkpoints`. -/
structure Checkpoint where
  tenantId : String
  deploymentId : String
  meterSourceId : String
  cursorAt : ℤ
  updatedAt : ℤ

/-- The primary key of `provider_meter_checkpoints`. -/
def Checkpoint.key (r : Checkpoint) : String × String × String :=
  (r.tenantId, r.deploymentId, r.meterSourceId)

/-- `provider_meter_schedule`. -/
structure Schedule where
  tenantId : String
  deploymentId : String
  nextAt : ℤ
  leaseUntil : ℤ
  leaseToken : Option String
  updatedAt : ℤ

/-- The primary key of `provider_meter_schedule`. -/
def Schedule.key (r : Schedule) : String × String := (r.tenantId, r.deploymentId)

/-- `tf_resource_deployments`: what is fixed of a row, and whether it is active. -/
structure DeploymentRow where
  deployment : Deployment
  active : Bool

/-- The primary key. -/
def DeploymentRow.key (r : DeploymentRow) : String × String := (r.deployment.tenantId, r.deployment.id)

/-- The tables, the latest reading of the clock, and what was read and written for which window. -/
structure Store where
  clock : ℤ := 0
  deployments : List DeploymentRow := []
  events : List UsageEvent := []
  checkpoints : List Checkpoint := []
  schedule : List Schedule := []
  /-- History: what the sources have answered. -/
  readings : List (Window × List MeterUsage) := []
  /-- History: the windows a usage event was recorded for, or the checkpoint was moved by. -/
  written : List Window := []

/-- `cursor_at` of a source of a deployment. -/
def Store.cursor (s : Store) (deployment : Deployment) (source : MeterSource) : Option ℤ :=
  (Table.find Checkpoint.key s.checkpoints (deployment.tenantId, deployment.id, source.id)).map
    Checkpoint.cursorAt

/-! ### Statements -/

/-- A statement, or a reading from outside. -/
inductive Call where
  | clock
  | randomId
  | meteringCandidates (timestamp : ℤ) (limit : ℕ)
  | insertSchedule (deployment : Deployment) (now : ℤ)
  | claim (deployment : Deployment) (now : ℤ) (leaseToken : String)
  | release (deployment : Deployment) (nextAt now : ℤ) (leaseToken : String)
  | cursor (deployment : Deployment) (source : MeterSource)
  | read (w : Window)
  | event (requestId : String)
  | allocationAdmission (organizationId : String)
  | insertEvent (w : Window) (event : UsageEvent)
  | admitEvent (w : Window) (event : UsageEvent)
  | insertCheckpoint (w : Window)
  | advance (w : Window)
  /-- The rest of the Host creates a deployment. -/
  | create (deployment : Deployment) (active : Bool)
  /-- The rest of the Host moves a deployment to another state. -/
  | setActive (tenantId id : String) (active : Bool)

/-- What a call gives back. -/
abbrev Call.Answer : Call → Type
  | .clock => ℤ
  | .randomId => String
  | .meteringCandidates _ _ => List Deployment
  | .claim _ _ _ | .release _ _ _ _ | .advance _ => ℕ
  | .cursor _ _ => Option ℤ
  | .read _ => List MeterUsage
  | .event _ => Option UsageEvent
  | .allocationAdmission _ => String
  | .insertSchedule _ _ | .insertEvent _ _ | .admitEvent _ _ | .insertCheckpoint _
  | .create _ _ | .setActive _ _ _ => Unit

/-- What a step reads from outside. -/
structure Outside where
  /-- How far the clock has gone on. -/
  elapsed : ℕ := 0
  /-- The call fails, and nothing is done. -/
  fails : Bool := false
  /-- The call is made, and its answer is lost. -/
  lost : Bool := false
  id : String := ""
  usage : List MeterUsage := []
  /-- The witness of the policy that admits an event. -/
  witness : String := ""

namespace Store

variable (s : Store)

/-- The row of an event, if any. -/
def event (requestId : String) : Option UsageEvent :=
  Table.find UsageEvent.requestId s.events requestId

/-- `INSERT OR IGNORE` of an event of a window. -/
def insertEvent (w : Window) (event : UsageEvent) : Store :=
  { s with
    events := if (s.event event.requestId).isSome then s.events else s.events ++ [event]
    written := s.written ++ [w] }

/-- The batch of `recordEvent`: an event that is there already has to be this one. -/
def admitEvent (w : Window) (event : UsageEvent) : Option Store :=
  match s.event event.requestId with
  | some row =>
    if sameEvent row event && row.admissionPolicyJson == event.admissionPolicyJson then some s
    else none
  | none => some (s.insertEvent w event)

/-- The `SELECT` of `meteringCandidates`. -/
def meteringCandidates (timestamp : ℤ) (limit : ℕ) : List Deployment :=
  let due (r : DeploymentRow) : ℤ × ℤ :=
    match Table.find Schedule.key s.schedule r.key with
    | some schedule => (schedule.leaseUntil, schedule.nextAt)
    | none => (0, r.deployment.createdAt)
  let rows := s.deployments.filter fun r =>
    r.active && decide ((due r).1 ≤ timestamp ∧ (due r).2 ≤ timestamp)
  let sorted := rows.insertionSort fun a b => toLex ((due a).2, toLex (a.key.1, a.key.2)) ≤
    toLex ((due b).2, toLex (b.key.1, b.key.2))
  (sorted.take limit).map DeploymentRow.deployment

/-- The `INSERT` of `claim`; the row is checked. -/
def insertSchedule (deployment : Deployment) (now : ℤ) : Option Store :=
  match Table.find Schedule.key s.schedule (deployment.tenantId, deployment.id) with
  | some _ => some s
  | none =>
    if 0 ≤ deployment.createdAt ∧ 0 ≤ now then
      some { s with schedule := s.schedule ++
        [{ tenantId := deployment.tenantId, deploymentId := deployment.id
           nextAt := deployment.createdAt, leaseUntil := 0, leaseToken := none, updatedAt := now }] }
    else none

/-- An `UPDATE` of the schedule of a deployment. -/
def updateSchedule (deployment : Deployment) (p : Schedule → Bool) (f : Schedule → Schedule) :
    ℕ × Store :=
  match Table.find Schedule.key s.schedule (deployment.tenantId, deployment.id) with
  | some row =>
    if p row then (1, { s with schedule := Table.put Schedule.key (f row) s.schedule }) else (0, s)
  | none => (0, s)

/-- The `UPDATE` of `claim`. -/
def claim (deployment : Deployment) (now : ℤ) (leaseToken : String) : ℕ × Store :=
  s.updateSchedule deployment (fun row => decide (row.leaseUntil ≤ now ∧ row.nextAt ≤ now))
    fun row => { row with
      leaseUntil := now + 300000, leaseToken := some leaseToken, updatedAt := now }

/-- The `UPDATE` of `release`. -/
def release (deployment : Deployment) (nextAt now : ℤ) (leaseToken : String) : ℕ × Store :=
  s.updateSchedule deployment (fun row => row.leaseToken == some leaseToken)
    fun row => { row with nextAt := max 0 nextAt, leaseUntil := 0, leaseToken := none, updatedAt := now }

/-- The `INSERT` of `reconcileSource`; the row is checked. -/
def insertCheckpoint (w : Window) : Option Store :=
  match s.cursor w.deployment w.source with
  | some _ => some s
  | none =>
    if 0 ≤ w.from_ ∧ 0 ≤ w.now then
      some { s with checkpoints := s.checkpoints ++
        [{ tenantId := w.deployment.tenantId, deploymentId := w.deployment.id
           meterSourceId := w.source.id, cursorAt := w.from_, updatedAt := w.now }] }
    else none

/-- The `UPDATE` of `reconcileSource`. -/
def advance (w : Window) : ℕ × Store :=
  match Table.find Checkpoint.key s.checkpoints
      (w.deployment.tenantId, w.deployment.id, w.source.id) with
  | some row =>
    if row.cursorAt = w.from_ then
      (1, { s with
        checkpoints := Table.put Checkpoint.key
          { row with cursorAt := w.until_, updatedAt := w.now } s.checkpoints
        written := s.written ++ [w] })
    else (0, s)
  | none => (0, s)

/-- The deployments after one is created, where its key is free. -/
def create (deployment : Deployment) (active : Bool) : Store :=
  if s.deployments.any fun r => r.key == (deployment.tenantId, deployment.id) then s
  else { s with deployments := s.deployments ++ [{ deployment, active }] }

/-- A Deployment is started or stopped. -/
def setActive (tenantId id : String) (active : Bool) : Store :=
  { s with deployments :=
      Table.update (fun r => r.key == (tenantId, id)) (fun r => { r with active }) s.deployments }

end Store

/-- A statement answers, or aborts and leaves the tables. -/
def orThrow (s : Store) : Option Store → Except Unit Unit × Store
  | some s' => (.ok (), s')
  | none => (.error (), s)

/-- What a call does. -/
def exec (w : Outside) (s : Store) : (c : Call) → Except Unit c.Answer × Store
  | .clock => (.ok (s.clock + w.elapsed), { s with clock := s.clock + w.elapsed })
  | .randomId => (.ok w.id, s)
  | .meteringCandidates timestamp limit => (.ok (s.meteringCandidates timestamp limit), s)
  | .insertSchedule deployment now => orThrow s (s.insertSchedule deployment now)
  | .claim deployment now leaseToken =>
    (.ok (s.claim deployment now leaseToken).1, (s.claim deployment now leaseToken).2)
  | .release deployment nextAt now leaseToken =>
    (.ok (s.release deployment nextAt now leaseToken).1,
      (s.release deployment nextAt now leaseToken).2)
  | .cursor deployment source => (.ok (s.cursor deployment source), s)
  | .read window => (.ok w.usage, { s with readings := s.readings ++ [(window, w.usage)] })
  | .event requestId => (.ok (s.event requestId), s)
  | .allocationAdmission _ => (.ok w.witness, s)
  | .insertEvent window event => (.ok (), s.insertEvent window event)
  | .admitEvent window event => orThrow s (s.admitEvent window event)
  | .insertCheckpoint window => orThrow s (s.insertCheckpoint window)
  | .advance window => (.ok (s.advance window).1, (s.advance window).2)
  | .create deployment active => (.ok (), s.create deployment active)
  | .setActive tenantId id active => (.ok (), s.setActive tenantId id active)

/-- One call in one circumstance. -/
def runs : Runs Call Call.Answer Unit Store Outside := fun _ c w s =>
  some (if w.fails then (.error (), s)
    else (if w.lost then .error () else (exec w s c).1, (exec w s c).2))

/-! ### The programs -/

/-- A call of the worker. -/
abbrev Program := Async Call Call.Answer Unit

/-- One statement. -/
def ask (c : Call) : Program c.Answer := .call c

/-- What is expected not to throw. -/
def expected {α : Type} : Option α → Program α
  | some a => pure a
  | none => throw ()

/-- `try { … } catch { … }`, as a value. -/
def attempt {α : Type} (p : Program α) : Program (Option α) :=
  tryCatch (some <$> p) fun _ => pure none

/-- `toISOString`, of an instant that a `Date` can hold. -/
def toISOString (time : ℤ) : Program ℤ :=
  if -8640000000000000 ≤ time ∧ time ≤ 8640000000000000 then pure time else throw ()

/-- `integer`. -/
def integer (value : ℤ) : Program ℤ :=
  if 0 ≤ value ∧ value ≤ maxSafeInteger then pure value else throw ()

/-- `recordEvent`. -/
def recordEvent (config : Config) (w : Window) (event : UsageEvent) : Program Unit :=
  if config.qualified then do
    match ← ask (.event event.requestId) with
    | some row => if sameEvent row event then pure () else throw ()
    | none =>
      let witness ← ask (.allocationAdmission event.organizationId)
      tryCatch (ask (.admitEvent w { event with admissionPolicyJson := some witness })) fun _ => do
        match ← ask (.event event.requestId) with
        | some row => if sameEvent row event then pure () else throw ()
        | none => throw ()
  else ask (.insertEvent w event)

/-- One pass of `recordProviderWindow`. -/
def recordLine (config : Config) (w : Window) (line : PricedLine) : Program Unit := do
  let exact ← expected (parsePricedRational (some line.amountNumeratorMicros)
    (some line.amountDenominator))
  if some line.amountMicros ≠ floorPricedMicros exact then throw ()
  let createdAt ← ask .clock
  recordEvent config w
    { requestId := requestId config w line.meter
      organizationId := w.deployment.tenantId
      resourceUid := w.deployment.resourceUid
      meter := line.meter
      quantity := line.quantity
      amountMicros := line.amountMicros
      amountNumeratorMicros := some line.amountNumeratorMicros
      amountDenominator := some line.amountDenominator
      createdAt }

/-- `recordProviderWindow`. -/
def recordProviderWindow (config : Config) (w : Window) : List PricedLine → Program Unit
  | [] => pure ()
  | line :: lines => do
    recordLine config w line
    recordProviderWindow config w lines

/-- Where `reconcileSource` goes on from. -/
def startingCursor (deployment : Deployment) (source : MeterSource) : Program ℤ := do
  match ← ask (.cursor deployment source) with
  | some cursorAt => integer cursorAt
  | none => return source.start deployment

/-- The end of `reconcileSource`: where the checkpoint does not move, another worker has to have
moved it as far. -/
def advanceCheckpoint (w : Window) : Program Unit := do
  ask (.insertCheckpoint w)
  if (← ask (.advance w)) = 1 then return ()
  match ← ask (.cursor w.deployment w.source) with
  | none => throw ()
  | some current => if (← integer current) < w.until_ then throw ()

/-- `reconcileSource`: whether a window was recorded, and `nextAt`. -/
def reconcileSource (config : Config) (deployment : Deployment) (source : MeterSource)
    (now : ℤ) (plan : List PricePlanCharge) : Program (Bool × ℤ) := do
  let cursor ← startingCursor deployment source
  if source.retentionSeconds.any fun (retention : ℕ) => decide (cursor < now - retention * 1000) then
    throw ()
  if source.horizon now ≤ cursor then return (false, cursor + 300000)
  let w : Window := { deployment, source, from_ := cursor, now }
  let _ ← toISOString w.from_
  let _ ← toISOString w.until_
  let usage ← expected (validateUsage (← ask (.read w)) source)
  let priced ← expected (priceMeteredUsage config plan usage)
  recordProviderWindow config w priced
  advanceCheckpoint w
  return (true, w.until_)

/-- `ProviderMeteringReport`. -/
structure Report where
  windows : ℕ := 0
  deferred : ℕ := 0
  failures : List String := []

/-- The loop over the sources of a deployment: the report, and `nextAt` where none of them
threw. -/
def reconcileSources (config : Config) (deployment : Deployment) (now : ℤ)
    (plan : List PricePlanCharge) :
    List MeterSource → Option ℤ → Report → Program (Report × Option ℤ)
  | [], nextAt, report => pure (report, nextAt)
  | source :: sources, nextAt, report => do
    match ← attempt (reconcileSource config deployment source now plan) with
    | none => return (report, none)
    | some (window, next) =>
      reconcileSources config deployment now plan sources
        (some (nextAt.elim next (min next)))
        (if window then { report with windows := report.windows + 1 }
          else { report with deferred := report.deferred + 1 })

/-- The sources that cover exactly the meters of a plan. -/
def coveringSources (pack : ProviderPack) (plan : List PricePlanCharge) :
    Option (List MeterSource) :=
  let pricedMeters := (plan.map PricePlanCharge.meter).dedup
  let sources := pack.meterSources.filter fun source =>
    !source.meters.isEmpty && source.meters.all fun meter => decide (meter ∈ pricedMeters)
  let coveredMeters := (sources.flatMap MeterSource.meters).dedup
  if sources.isEmpty || decide (coveredMeters.length ≠ pricedMeters.length) ||
      pricedMeters.any fun meter => decide (meter ∉ coveredMeters) then none
  else some sources

/-- `release`. -/
def release (deployment : Deployment) (nextAt now : ℤ) (leaseToken : String) :
    Program Unit := do
  let released ← ask (.release deployment nextAt now leaseToken)
  if released > 1 then throw ()

/-- The offering of a deployment and its pack, where they belong together. -/
def Config.offered (config : Config) (deployment : Deployment) :
    Option (ProviderPack × Offering) := do
  let pack ← config.pack deployment.providerPackRef
  let offering ← config.findOffering deployment.offeringId
  if offering.providerPackRef = pack.id then some (pack, offering) else none

/-- The body of the `try` of `reconcile`; the report so far goes along, for a failure keeps what
was counted before it. -/
def meterDeployment (config : Config) (deployment : Deployment) (now : ℤ)
    (leaseToken : String) (report : Report) : Program (Report × Bool) := do
  match config.offered deployment with
  | none => return (report, false)
  | some (pack, offering) =>
    if offering.meters.isEmpty then
      match ← attempt (release deployment (now + 86400000) now leaseToken) with
      | some _ => return ({ report with deferred := report.deferred + 1 }, true)
      | none => return (report, false)
    else
      match coveringSources pack offering.meters with
      | none => return (report, false)
      | some sources =>
        match ← reconcileSources config deployment now offering.meters sources none report with
        | (report, none) => return (report, false)
        | (report, some nextAt) =>
          match ← attempt (release deployment nextAt now leaseToken) with
          | some _ => return (report, true)
          | none => return (report, false)

/-- `claim`. -/
def claim (deployment : Deployment) (now : ℤ) (leaseToken : String) : Program Bool := do
  ask (.insertSchedule deployment now)
  return (← ask (.claim deployment now leaseToken)) == 1

/-- The loop of `reconcile`. -/
def reconcileDeployments (config : Config) : List Deployment → Report → Program Report
  | [], report => pure report
  | deployment :: deployments, report => do
    let now ← ask .clock
    let leaseToken := "meter_" ++ (← ask .randomId)
    if !(← claim deployment now leaseToken) then
      reconcileDeployments config deployments report
    else
      match ← meterDeployment config deployment now leaseToken report with
      | (report, true) => reconcileDeployments config deployments report
      | (report, false) =>
        release deployment (now + 300000) now leaseToken
        reconcileDeployments config deployments
          { report with failures := report.failures ++ [deployment.id] }

/-- `reconcile`. -/
def reconcile (config : Config) (limit : ℕ) : Program Report := do
  if limit < 1 ∨ 100 < limit then throw ()
  let timestamp ← ask .clock
  let deployments ← ask (.meteringCandidates timestamp limit)
  reconcileDeployments config deployments {}

/-! ### The machine -/

/-- What is asked of the Host. -/
inductive Request where
  | reconcile (limit : ℕ)
  | create (deployment : Deployment) (active : Bool)
  | setActive (tenantId id : String) (active : Bool)

/-- The program of a request. -/
def Request.body (config : Config) : Request → Program Report
  | .reconcile limit => Metering.reconcile config limit
  | .create deployment active => do
    ask (.create deployment active)
    return {}
  | .setActive tenantId id active => do
    ask (.setActive tenantId id active)
    return {}

/-- The machine of all interleavings. -/
def metering (config : Config) : Machine (Pool Store (Program Report)) (PoolAction Request Outside) :=
  pool runs (Request.body config) {}

end Takoserver.Metering
