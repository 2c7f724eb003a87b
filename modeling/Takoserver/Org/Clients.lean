import Takoserver.Org.Batches

/-!
# Clients of an organization's billing

The calls of `createOrgBilling` and `createStripeBillingStore`, one statement at a
time, and the machine of all their interleavings.  Between any two statements of a
call any number of other calls move; a batch commits, is refused, or commits and
loses its acknowledgement, and a call whose batch failed reads again before it
answers.  The other users of the wallet (reservations, AI requests, roll-ups) move
as clients of the wallet's own model, under references of their own.

The maintenance that `prepare` does first, and the funding on demand of a call that
wants funds, are calls of their own here: the sweep is an `expireDue`, a grant a `fund`
of the wallet.  Where they throw (overdue holds are left, say), the call is refused
before it reads its row.  One clock, which never goes back, stamps every statement.
-/

namespace Takoserver.Org

open Wallet (Instant Admission Selection select PriorRefunds)

/-- The calls. -/
inductive Call where
  | hold (x : HoldInput)
  | readHold (org ref : String)
  | capture (x : CaptureInput)
  | release (org ref : String)
  | expireDue (limit : ℕ) (org : Option String)
  | usage (x : UsageInput)
  | grant (g : Grant)
  | grantOnDemand (p : NativeProof) (customerId : String) (expiresAt : Option Instant)
  | refund (r : RefundInput)
  | freezeFunding (org fundingRef : String)
  | unfreezeFunding (org fundingRef : String) (generation cumulative : ℕ)
  /-- A call of another user of the wallet. -/
  | wallet (call : Wallet.Call)

/-- What a call answers with. -/
inductive Reply where
  | hold (row : Hold)
  | usage (row : UsageRecord)
  | receipt (row : Wallet.Refund × Receipt)
  | generation (n : ℕ)
  | done
  | thrown (code : ErrorCode)

/-! ### Where a call stands -/

/-- A capture or a release of the books of a hold. -/
inductive CloseStage (captured : ℕ) where
  | opened
  | allocations (instant : Instant)
  | committing (instant : Instant) (selection : Selection captured)
  | readBack
  /-- The batch failed; who closed the hold? -/
  | closedBy

/-- Where `hold` stands. -/
inductive HoldStage (amount : ℕ) where
  | looking
  | pendingUsage
  | receivable
  | planning
  | funds (instant expiresAt : Instant) (admission : Option Admission)
  | lots (instant expiresAt : Instant) (admission : Option Admission)
  | committing (plan : HoldPlan amount)
  | replaying (insufficient : Bool)
  | debt (insufficient : Bool)
  | outstanding (insufficient : Bool)
  | readBack

/-- Where `release` stands. -/
inductive ReleaseStage where
  | looking
  | inserting
  | winner
  | readBack

/-- Where `usage` stands. -/
inductive UsageStage where
  | looking
  | receivable
  | measuring
  | recording (u : UsageRecord)
  | reading
  | debt (u : UsageRecord)
  | planning (u : UsageRecord)
  | funds (u : UsageRecord) (instant : Instant) (admission : Option Admission)
  | lots (u : UsageRecord) (instant : Instant) (admission : Option Admission)
  | committing (u : UsageRecord) (plan : PayPlan u.amountMicros)
  | replaying (insufficient : Bool)
  | readBack

/-- Where a grant stands. -/
inductive GrantStage where
  | source
  | lot (now : Instant)
  | committing (legacy : Bool) (now : Instant)
  | replaying

/-- Where the funding of a payment stands. -/
inductive OnDemandStage where
  | source
  | committing (now : Instant)
  | replaying
  | floor
  | observing (floor : ℕ)
  | observed

/-- Where the lifting of a freeze stands. -/
inductive UnfreezeStage where
  | fence
  | refunded (active : Bool)
  | floor (active : Bool)
  | committing
  /-- The batch failed; was its fence cleared all the same? -/
  | clearedFence
  | clearedSum
  | clearedFloor

/-- Where `refund` stands. -/
inductive RefundStage where
  | source
  | floor (p : NativeProof)
  | observing (p : NativeProof) (floor : ℕ)
  | observed (p : NativeProof)
  | prior
  | sums
  | heldRefs (prior : PriorRefunds) (now : Instant)
  | row (prior : PriorRefunds) (now : Instant) (closures : List Closure) (refs : List String)
  | totals (prior : PriorRefunds) (now : Instant) (closures : List Closure) (ref : String)
      (hasRow : Bool) (refs : List String)
  | committing (plan : RefundPlan)
  | receipt (failed : Bool)
  | fence (row : Wallet.Refund × Receipt)
  | unfreezing (row : Wallet.Refund × Receipt) (cumulative : ℕ) (stage : UnfreezeStage)
  | clearing (row : Wallet.Refund × Receipt)

/-- Where a call stands, with what it has read so far. -/
inductive Client where
  | idle
  | holding (x : HoldInput) (attempted : Bool) (stage : HoldStage x.amountMicros)
  | readingHold (org ref : String)
  | capturing (x : CaptureInput)
  | releasing (org ref : String) (stage : ReleaseStage)
  | sweeping (limit : ℕ) (org : Option String)
  /-- `close`, for a call that closes the holds `rest` after it; where `refuses`, the call is a
  capture whose deadline has passed. -/
  | closing (call : Call) (rest : List Hold) (refuses : Bool) (x : Closing)
      (stage : CloseStage x.captured)
  | metering (x : UsageInput) (attempted : Bool) (stage : UsageStage)
  | granting (g : Grant) (stage : GrantStage)
  | grantingOnDemand (p : NativeProof) (customerId : String) (expiresAt : Option Instant)
      (stage : OnDemandStage)
  | refunding (r : RefundInput) (stage : RefundStage)
  | freezing (org fundingRef : String)
  | unfreezing (org fundingRef : String) (generation cumulative : ℕ) (stage : UnfreezeStage)
  | wallet (w : Wallet.Client)
  | finished (call : Call) (reply : Reply)

/-- The call ends with an error. -/
def Call.throws (call : Call) (code : ErrorCode) : Client := .finished call (.thrown code)

/-! ### Holds -/

/-- `current`: a live hold past its deadline is closed before it is reported. -/
def current (call : Call) (now : Instant) (row : Hold) : Client :=
  if row.state = .live ∧ row.expiresAt.any (· ≤ now) then
    .closing call [] false (.expiry row) .opened
  else .finished call (.hold row)

/-- What a call does with a row that `close` returned. -/
def Call.closed (call : Call) (refuses : Bool) (row : Hold) : List Hold → Client
  | next :: rest => .closing call rest false (.expiry next) .opened
  | [] =>
    if refuses then call.throws .holdClosed
    else
      match call with
      | .expireDue _ _ => .finished call .done
      | _ => .finished call (.hold row)

/-- What `close` does when its batch failed and it has read the hold again. -/
def Call.closedBy (call : Call) (rest : List Hold) (refuses : Bool) (x : Closing) (now : Instant) :
    Option Hold → Client
  | none => call.throws .billingUnavailable
  | some row =>
    if row.state ≠ .live then
      match x.captureFingerprint with
      | none => call.closed refuses row rest
      | some fingerprint =>
        if row.captureFingerprint = none then call.throws .holdClosed
        else if row.captureFingerprint ≠ some fingerprint then call.throws .referenceConflict
        else call.closed refuses row rest
    else if x.state ≠ .expired ∧ row.expiresAt.any (· ≤ now) then
      .closing call rest x.captureFingerprint.isSome (.expiry row) .opened
    else call.throws .billingUnavailable

/-- The next statement of `close`. -/
def Closing.step (x : Closing) (call : Call) (rest : List Hold) (refuses : Bool) (t : Tables)
    (c : Circumstance) : CloseStage x.captured → Client × Tables
  | .opened => (.closing call rest refuses x (.allocations c.now), t)
  | .allocations instant =>
    match select x.captured (t.money.heldRows x.row.org x.row.ledgerRef) with
    | some selection => (.closing call rest refuses x (.committing instant selection), t)
    | none => (call.throws .billingUnavailable, t)
  | .committing instant selection =>
    match x.batch instant selection.picks c t with
    | some t' => (.closing call rest refuses x (if c.lost then .closedBy else .readBack), t')
    | none => (.closing call rest refuses x .closedBy, t)
  | .readBack =>
    match t.held x.row.org x.row.ref with
    | some row => (call.closed refuses row rest, t)
    | none => (call.throws .billingUnavailable, t)
  | .closedBy => (call.closedBy rest refuses x c.now (t.held x.row.org x.row.ref), t)

/-- What `admitHold` does with a row it finds under its reference. -/
def HoldInput.replay (x : HoldInput) (now : Instant) (row : Hold) : Client :=
  if row.fingerprint ≠ some x.signature then (Call.hold x).throws .referenceConflict
  else current (.hold x) now row

/-- The next statement of `admitHold`. -/
def HoldInput.step (x : HoldInput) (attempted : Bool) (t : Tables) (c : Circumstance) :
    HoldStage x.amountMicros → Client × Tables
  | .looking =>
    match t.held x.org x.reference with
    | some row => (x.replay c.now row, t)
    | none =>
      if c.refused then ((Call.hold x).throws .refused, t)
      else (.holding x attempted .pendingUsage, t)
  | .pendingUsage =>
    if t.pendingUsage x.org then ((Call.hold x).throws .outstandingUsage, t)
    else (.holding x attempted .receivable, t)
  | .receivable =>
    if t.money.receivableClear x.org then (.holding x attempted .planning, t)
    else ((Call.hold x).throws .refundReceivable, t)
  | .planning =>
    match t.tariffAt c.now with
    | none => ((Call.hold x).throws .pricingRevisionUnavailable, t)
    | some tariff =>
      if x.pricingRevision ≠ tariff.revision then
        ((Call.hold x).throws .pricingRevisionUnavailable, t)
      else
        let expiresAt := c.now + tariff.holdTtlSeconds * 1000
        if h : x.amountMicros = 0 then
          (.holding x attempted (.committing ⟨c.now, expiresAt, c.admission, ⟨[], by simp [h]⟩⟩), t)
        else (.holding x attempted (.funds c.now expiresAt c.admission), t)
  | .funds instant expiresAt admission =>
    if t.money.receivableClear x.org then
      (.holding x attempted (.lots instant expiresAt admission), t)
    else (.holding x attempted (.replaying true), t)
  | .lots instant expiresAt admission =>
    match select x.amountMicros
        (t.money.eligibleLots { c.toCircumstance with now := instant } admission x.org) with
    | some selection =>
      (.holding x attempted (.committing ⟨instant, expiresAt, admission, selection⟩), t)
    | none => (.holding x attempted (.replaying true), t)
  | .committing plan =>
    match x.batch plan c t with
    | some t' => (.holding x attempted (if c.lost then .replaying false else .readBack), t')
    | none => (.holding x attempted (.replaying false), t)
  | .replaying insufficient =>
    match t.held x.org x.reference with
    | some row => (x.replay c.now row, t)
    | none =>
      if c.refused then ((Call.hold x).throws .refused, t)
      else (.holding x attempted (.debt insufficient), t)
  | .debt insufficient =>
    if t.money.receivableClear x.org then (.holding x attempted (.outstanding insufficient), t)
    else ((Call.hold x).throws .refundReceivable, t)
  | .outstanding insufficient =>
    if t.pendingUsage x.org then ((Call.hold x).throws .outstandingUsage, t)
    else if !attempted && insufficient && c.funded then (.holding x true .looking, t)
    else if insufficient ∨ (t.money.totals c.toCircumstance x.org).available < x.amountMicros then
      ((Call.hold x).throws .insufficientFunds, t)
    else ((Call.hold x).throws .billingUnavailable, t)
  | .readBack =>
    match t.held x.org x.reference with
    | some row => (current (.hold x) c.now row, t)
    | none => ((Call.hold x).throws .holdNotFound, t)

/-- `readHold`, once its row is read. -/
def readHold (org ref : String) (now : Instant) : Option Hold → Client
  | some row => current (.readHold org ref) now row
  | none => (Call.readHold org ref).throws .holdNotFound

/-- `capture`, once its row is read. -/
def CaptureInput.answer (x : CaptureInput) : Option Hold → Client
  | none => (Call.capture x).throws .holdNotFound
  | some row =>
    if row.amountMicros < x.amountMicros then (Call.capture x).throws .captureExceedsHold
    else if row.captureFingerprint ≠ none ∧ row.state ≠ .live then
      if row.captureFingerprint ≠ some x.signature then (Call.capture x).throws .referenceConflict
      else .finished (.capture x) (.hold row)
    else if row.state ≠ .live then (Call.capture x).throws .holdClosed
    else if x.amountMicros ≠ x.cappedActual row then (Call.capture x).throws .measurementConflict
    else .closing (.capture x) [] false (x.closing row) .opened

/-- The `close` of a release. -/
def releasing (org ref : String) (row : Hold) : Client :=
  if row.state = .live then
    .closing (.release org ref) [] false ⟨row, .released, 0, none, none⟩ .opened
  else .finished (.release org ref) (.hold row)

/-- The next statement of `release`. -/
def releaseStep (org ref : String) (t : Tables) (c : Circumstance) :
    ReleaseStage → Client × Tables
  | .looking =>
    if c.refused then ((Call.release org ref).throws .refused, t)
    else
      match t.held org ref with
      | some row => (releasing org ref row, t)
      | none => (.releasing org ref .inserting, t)
  | .inserting =>
    match t.insertHold (tombstone org ref c.now) with
    | some t' =>
      (if c.lost then (Call.release org ref).throws .sqlError else .releasing org ref .readBack, t')
    | none => (.releasing org ref .winner, t)
  | .winner | .readBack =>
    match t.held org ref with
    | some row => (releasing org ref row, t)
    | none => ((Call.release org ref).throws .billingUnavailable, t)

/-- The rows `sweep` closes: the first `limit` live holds past their deadline. -/
def Tables.due (t : Tables) (limit : ℕ) (org : Option String) (cutoff : Instant) : List Hold :=
  ((t.holds.filter fun h => h.state = .live ∧ h.expiresAt.any (· ≤ cutoff) ∧
      org.all (· = h.org)).insertionSort fun a b =>
    ((compare (a.expiresAt.getD 0) (b.expiresAt.getD 0)).then
      ((compare a.org b.org).then (compare a.ref b.ref))).isLE = true).take limit

/-- `sweep`, once its rows are read. -/
def sweep (limit : ℕ) (org : Option String) : List Hold → Client
  | [] => .finished (.expireDue limit org) .done
  | row :: rest => .closing (.expireDue limit org) rest false (.expiry row) .opened

/-! ### Usage -/

/-- The next statement of `admitUsage`. -/
def UsageInput.step (x : UsageInput) (attempted : Bool) (t : Tables) (c : Circumstance) :
    UsageStage → Client × Tables
  | .looking =>
    match t.usageRow x.org x.reference with
    | some u =>
      if u.fingerprint ≠ x.signature then ((Call.usage x).throws .referenceConflict, t)
      else if u.state = .paid then (.finished (.usage x) (.usage u), t)
      else if c.refused then ((Call.usage x).throws .refused, t)
      else (.metering x attempted (.debt u), t)
    | none =>
      if c.refused then ((Call.usage x).throws .refused, t)
      else (.metering x attempted .receivable, t)
  | .receivable =>
    if t.money.receivableClear x.org then (.metering x attempted .measuring, t)
    else ((Call.usage x).throws .refundReceivable, t)
  | .measuring =>
    match x.measured t with
    | .error code => ((Call.usage x).throws code, t)
    | .ok (m, amount) =>
      if !attempted && c.funded then (.metering x true .looking, t)
      else (.metering x attempted (.recording (x.record m amount c.admission c.now)), t)
  | .recording u =>
    -- an error of this batch is not reported: the row decides
    match x.batch u c t with
    | some t' => (.metering x attempted .reading, t')
    | none => (.metering x attempted .reading, t)
  | .reading =>
    match t.usageRow x.org x.reference with
    | some u =>
      if u.fingerprint ≠ x.signature then ((Call.usage x).throws .referenceConflict, t)
      else if u.state = .paid then (.finished (.usage x) (.usage u), t)
      else (.metering x attempted (.debt u), t)
    | none =>
      if t.money.receivableClear x.org then ((Call.usage x).throws .billingUnavailable, t)
      else ((Call.usage x).throws .refundReceivable, t)
  | .debt u =>
    if t.money.receivableClear x.org then (.metering x attempted (.planning u), t)
    else ((Call.usage x).throws .refundReceivable, t)
  | .planning u =>
    if h : u.amountMicros = 0 then
      (.metering x attempted (.committing u ⟨c.now, u.pinned c, ⟨[], by simp [h]⟩⟩), t)
    else (.metering x attempted (.funds u c.now (u.pinned c)), t)
  | .funds u instant admission =>
    if t.money.receivableClear x.org then (.metering x attempted (.lots u instant admission), t)
    else (.metering x attempted (.replaying true), t)
  | .lots u instant admission =>
    match select u.amountMicros
        (t.money.eligibleLots { c.toCircumstance with now := instant } admission u.org) with
    | some selection =>
      (.metering x attempted (.committing u ⟨instant, admission, selection⟩), t)
    | none => (.metering x attempted (.replaying true), t)
  | .committing u plan =>
    match u.batch plan c t with
    | some t' => (.metering x attempted (if c.lost then .replaying false else .readBack), t')
    | none => (.metering x attempted (.replaying false), t)
  | .replaying insufficient =>
    match t.usageRow x.org x.reference with
    | some u =>
      if u.state = .paid then (.finished (.usage x) (.usage u), t)
      else if !t.money.receivableClear x.org then ((Call.usage x).throws .refundReceivable, t)
      -- an unpaid record is the answer where funds are wanting
      else if insufficient ∨ (t.money.totals c.toCircumstance x.org).available < u.amountMicros then
        (.finished (.usage x) (.usage u), t)
      else ((Call.usage x).throws .billingUnavailable, t)
    | none => ((Call.usage x).throws .billingUnavailable, t)
  | .readBack =>
    match t.usageRow x.org x.reference with
    | some u => (.finished (.usage x) (.usage u), t)
    | none => ((Call.usage x).throws .billingUnavailable, t)

/-! ### Grants -/

/-- The next statement of `grant`. -/
def Grant.step (g : Grant) (t : Tables) (c : Circumstance) : GrantStage → Client × Tables
  | .source =>
    match t.source g.sourceType g.sourceId with
    | some g' =>
      if g' = g then (.finished (.grant g) .done, t) else ((Call.grant g).throws .grantConflict, t)
    | none =>
      if g.sourceType = .invoice ∧ g.periodStart.any (c.now < ·) then
        ((Call.grant g).throws .refused, t)
      else (.granting g (.lot c.now), t)
  | .lot now =>
    match t.money.lot g.org g.fundingRef with
    | none => (.granting g (.committing false now), t)
    | some l =>
      if g.legacyLot l then (.granting g (.committing true now), t)
      else ((Call.grant g).throws .grantConflict, t)
  | .committing legacy now =>
    match g.batch legacy now c t with
    | some t' => (if c.lost then .granting g .replaying else .finished (.grant g) .done, t')
    | none => (.granting g .replaying, t)
  | .replaying =>
    if t.source g.sourceType g.sourceId = some g then (.finished (.grant g) .done, t)
    else ((Call.grant g).throws .sqlError, t)

/-- The observation adds nothing: its amount is on record and acted upon. -/
def NativeProof.observed (p : NativeProof) (t : Tables) : Bool :=
  let floor := t.nativeFloor p.org p.fundingRef
  decide (p.refundedMicros ≤ floor) &&
    (t.money.fenced p.org p.fundingRef || decide (floor ≤ t.refunded p.org p.fundingRef))

/-- The next statement of `grantOnDemand`. -/
def NativeProof.step (p : NativeProof) (customerId : String) (expiresAt : Option Instant)
    (t : Tables) (c : Circumstance) : OnDemandStage → Client × Tables
  | .source =>
    match t.source .paymentIntent p.paymentIntentId with
    | some g =>
      if g.org = p.org ∧ g.fundingRef = p.fundingRef ∧ g.chargeId = p.chargeId ∧
          g.customerId = some customerId ∧ g.amountMicros = p.amountMinor * 10000 then
        (.grantingOnDemand p customerId expiresAt .floor, t)
      else ((Call.grantOnDemand p customerId expiresAt).throws .grantConflict, t)
    | none =>
      if c.refused ∨ c.now < p.observedAt then
        ((Call.grantOnDemand p customerId expiresAt).throws .refused, t)
      else (.grantingOnDemand p customerId expiresAt (.committing c.now), t)
  | .committing now =>
    match p.grantBatch customerId expiresAt now c t with
    | some t' =>
      (if c.lost then .grantingOnDemand p customerId expiresAt .replaying
        else .finished (.grantOnDemand p customerId expiresAt) .done, t')
    | none => (.grantingOnDemand p customerId expiresAt .replaying, t)
  | .replaying =>
    match t.source .paymentIntent p.paymentIntentId with
    | some g =>
      if g.org = p.org ∧ g.fundingRef = p.fundingRef ∧ g.chargeId = p.chargeId ∧
          g.customerId = some customerId ∧ g.amountMicros = p.amountMinor * 10000 then
        (.grantingOnDemand p customerId expiresAt .floor, t)
      else ((Call.grantOnDemand p customerId expiresAt).throws .sqlError, t)
    | none => ((Call.grantOnDemand p customerId expiresAt).throws .sqlError, t)
  | .floor =>
    if p.observed t then (.finished (.grantOnDemand p customerId expiresAt) .done, t)
    else if c.now < p.observedAt then
      ((Call.grantOnDemand p customerId expiresAt).throws .refused, t)
    else (.grantingOnDemand p customerId expiresAt
      (.observing (t.nativeFloor p.org p.fundingRef)), t)
  | .observing floor =>
    (.grantingOnDemand p customerId expiresAt .observed, if c.vetoed then t else p.observe floor t)
  | .observed =>
    if p.observed t then (.finished (.grantOnDemand p customerId expiresAt) .done, t)
    else ((Call.grantOnDemand p customerId expiresAt).throws .sqlError, t)

/-! ### Refunds -/

/-- `freezeFunding`, and the generation it answers with. -/
def freezeStep (org fundingRef : String) (t : Tables) (c : Circumstance) : Client × Tables :=
  let call := Call.freezeFunding org fundingRef
  if c.vetoed then (call.throws .sqlError, t)
  else
    let t' := t.freeze org fundingRef
    match Table.find Wallet.Fence.key t'.money.fences (org, fundingRef) with
    | some f =>
      (if c.lost then call.throws .sqlError else .finished call (.generation f.generation), t')
    | none => (call.throws .sqlError, t')

/-- The next statement of `unfreezeFunding`, for a call that goes on as `next` and ends as
`done`. -/
def unfreezeStep (call : Call) (next : UnfreezeStage → Client) (done : Client)
    (org fundingRef : String) (generation cumulative : ℕ) (t : Tables) (c : Circumstance) :
    UnfreezeStage → Client × Tables
  | .fence =>
    match Table.find Wallet.Fence.key t.money.fences (org, fundingRef) with
    | none => (call.throws .freezeChanged, t)
    | some f =>
      if f.generation ≠ generation then (call.throws .freezeChanged, t)
      else (next (.refunded f.active), t)
  | .refunded active =>
    if t.refunded org fundingRef ≠ cumulative then (call.throws .refundOutOfOrder, t)
    else (next (.floor active), t)
  | .floor active =>
    if cumulative < t.nativeFloor org fundingRef then (call.throws .refundOutOfOrder, t)
    else if active then (next .committing, t)
    else (done, t)
  | .committing =>
    match if c.vetoed then none else t.unfreeze org fundingRef generation cumulative with
    | some t' => (if c.lost then next .clearedFence else done, t')
    | none => (next .clearedFence, t)
  | .clearedFence =>
    if (Table.find Wallet.Fence.key t.money.fences (org, fundingRef)).any fun f =>
        f.generation = generation ∧ f.active = false then
      (next .clearedSum, t)
    else (call.throws .sqlError, t)
  | .clearedSum =>
    if t.refunded org fundingRef = cumulative then (next .clearedFloor, t)
    else (call.throws .sqlError, t)
  | .clearedFloor =>
    if t.nativeFloor org fundingRef ≤ cumulative then (done, t) else (call.throws .sqlError, t)

/-- `refund`, once its native observation is on record. -/
def RefundInput.proven (r : RefundInput) (p : NativeProof) : Client :=
  if p.refundedMicros < r.cumulativeRefundedMicros then
    (Call.refund r).throws .invalidNativeProof
  else if r.releaseFreeze ∧ r.cumulativeRefundedMicros < p.refundedMicros then
    (Call.refund r).throws .refundDrainIncomplete
  else .refunding r .prior

/-- `clearFenceIfRequested`, before its first read. -/
def RefundInput.clear (r : RefundInput) (row : Wallet.Refund × Receipt) : Client :=
  if r.releaseFreeze then .refunding r (.fence row) else .finished (.refund r) (.receipt row)

/-- The next statement of `refund`. -/
def RefundInput.step (r : RefundInput) (t : Tables) (c : Circumstance) :
    RefundStage → Client × Tables
  | .source =>
    if t.source r.grant.sourceType r.grant.sourceId ≠ some r.grant then
      ((Call.refund r).throws .grantConflict, t)
    else if r.grant.sourceType = .paymentIntent then
      match r.native with
      | none => ((Call.refund r).throws .invalidNativeProof, t)
      | some p =>
        if c.refused || !r.matchesProof p then ((Call.refund r).throws .invalidNativeProof, t)
        else (.refunding r (.floor p), t)
    else (.refunding r .prior, t)
  | .floor p =>
    if p.observed t then (r.proven p, t)
    else if c.now < p.observedAt then ((Call.refund r).throws .refused, t)
    else (.refunding r (.observing p (t.nativeFloor p.org p.fundingRef)), t)
  | .observing p floor => (.refunding r (.observed p), if c.vetoed then t else p.observe floor t)
  | .observed p =>
    if p.observed t then (r.proven p, t) else ((Call.refund r).throws .sqlError, t)
  | .prior =>
    match t.receipt r.refundId with
    | some row =>
      if r.receiptMatches row then (r.clear row, t) else ((Call.refund r).throws .refundConflict, t)
    | none => (.refunding r .sums, t)
  | .sums =>
    let prior := r.call.priorRefunds t.money
    if prior.refunded + r.amountMicros ≠ r.cumulativeRefundedMicros then
      ((Call.refund r).throws .refundOutOfOrder, t)
    else if r.call.target < prior.target then ((Call.refund r).throws .refundConflict, t)
    else if r.proof.any (c.now < ·.observedAt) then ((Call.refund r).throws .refused, t)
    else (.refunding r (.heldRefs prior c.now), t)
  | .heldRefs prior now => (.refunding r (.row prior now [] (r.call.heldRefs t.money)), t)
  | .row prior now closures (ref :: refs) =>
    match t.holdOfLedger r.grant.org ref with
    | some h =>
      if h.state = .live then (.refunding r (.totals prior now closures ref true refs), t)
      else ((Call.refund r).throws .holdConflict, t)
    | none => (.refunding r (.totals prior now closures ref false refs), t)
  | .totals prior now closures ref hasRow refs =>
    let allocated := t.money.allocatedBy r.grant.org .hold ref
    if 0 < allocated ∧ t.money.heldOf r.grant.org ref = allocated then
      (.refunding r (.row prior now (closures ++ [⟨ref, allocated, hasRow⟩]) refs), t)
    else ((Call.refund r).throws .holdConflict, t)
  | .row prior now closures [] =>
    match r.call.plan prior [] (t.money.lot r.grant.org r.grant.fundingRef)
        (t.money.allocatedFrom [.capture, .usageDebit] r.grant.org r.grant.fundingRef) now with
    | some figures => (.refunding r (.committing ⟨now, closures, figures⟩), t)
    | none => ((Call.refund r).throws .conservationViolated, t)
  | .committing plan =>
    match r.batch plan c t with
    | some t' => (.refunding r (.receipt c.lost), t')
    | none => (.refunding r (.receipt true), t)
  | .receipt failed =>
    match t.receipt r.refundId with
    | some row =>
      if failed then
        if r.receiptMatches row then (r.clear row, t) else ((Call.refund r).throws .sqlError, t)
      else (.finished (.refund r) (.receipt row), t)
    | none =>
      ((Call.refund r).throws (if failed then .sqlError else .refundUnavailable), t)
  | .fence row =>
    match r.proof with
    | some p =>
      if t.refunded r.grant.org r.grant.fundingRef < p.refundedMicros then
        ((Call.refund r).throws .refundDrainIncomplete, t)
      else
        (.refunding r (.unfreezing row (t.refunded r.grant.org r.grant.fundingRef) .fence), t)
    | none =>
      match Table.find Wallet.Fence.key t.money.fences (r.grant.org, r.grant.fundingRef) with
      | none => ((Call.refund r).throws .freezeChanged, t)
      | some f =>
        if f.generation ≠ r.fenceGeneration then ((Call.refund r).throws .freezeChanged, t)
        else if f.active then (.refunding r (.clearing row), t)
        else (.finished (.refund r) (.receipt row), t)
  | .unfreezing row cumulative stage =>
    unfreezeStep (.refund r) (fun stage => .refunding r (.unfreezing row cumulative stage))
      (.finished (.refund r) (.receipt row)) r.grant.org r.grant.fundingRef r.fenceGeneration
      cumulative t c stage
  | .clearing row =>
    -- the fence falls by its generation alone
    if c.vetoed then ((Call.refund r).throws .sqlError, t)
    else if t.money.fences.any fun f => f.org = r.grant.org ∧
        f.fundingRef = r.grant.fundingRef ∧ f.generation = r.fenceGeneration ∧ f.active then
      (if c.lost then (Call.refund r).throws .sqlError else .finished (.refund r) (.receipt row),
        { t with money := t.money.clearFence r.grant.org r.grant.fundingRef r.fenceGeneration })
    else ((Call.refund r).throws .freezeChanged, t)

/-! ### The next statement -/

/-- A call of another user of the wallet: it funds, or debits or settles a reference of its
own. -/
def foreign : Wallet.Call → Bool
  | .fund _ => true
  | .debit d => !lifecycle d.reference
  | .settle s => !lifecycle s.reference
  | .refund _ => false

/-- A call before its first statement. -/
def Call.start (now : Instant) : Call → Client
  | .hold x => x.check.elim (.holding x false .looking) (Call.throws (.hold x))
  | .readHold org ref =>
    if validReference ref then .readingHold org ref
    else (Call.readHold org ref).throws .invalidReference
  | .capture x => x.check.elim (.capturing x) (Call.throws (.capture x))
  | .release org ref =>
    if validReference ref then .releasing org ref .looking
    else (Call.release org ref).throws .invalidReference
  | .expireDue limit org =>
    if 1 ≤ limit ∧ limit ≤ 100 then .sweeping limit org
    else (Call.expireDue limit org).throws .refused
  | .usage x => (x.check now).elim (.metering x false .looking) (Call.throws (.usage x))
  | .grant g => if g.valid then .granting g .source else (Call.grant g).throws .invalidGrant
  | .grantOnDemand p customerId expiresAt => .grantingOnDemand p customerId expiresAt .source
  | .refund r => r.check.elim (.refunding r .source) (Call.throws (.refund r))
  | .freezeFunding org fundingRef =>
    if org ≠ "" ∧ fundingRef ≠ "" then .freezing org fundingRef
    else (Call.freezeFunding org fundingRef).throws .invalidGrant
  | .unfreezeFunding org fundingRef generation cumulative =>
    if 0 < generation ∧ org ≠ "" ∧ fundingRef ≠ "" then
      .unfreezing org fundingRef generation cumulative .fence
    else (Call.unfreezeFunding org fundingRef generation cumulative).throws .invalidRefund
  | .wallet call => if foreign call then .wallet call.start else (Call.wallet call).throws .refused

/-- Where a call begins: at its throw, or at its first statement with its checks passed. -/
inductive Call.Starts (now : Instant) : Call → Client → Prop
  | throws (call : Call) (code : ErrorCode) : Starts now call (call.throws code)
  | hold {x : HoldInput} (h : x.check = none) : Starts now (.hold x) (.holding x false .looking)
  | readHold : Starts now (.readHold org ref) (.readingHold org ref)
  | capture {x : CaptureInput} (h : x.check = none) : Starts now (.capture x) (.capturing x)
  | release : Starts now (.release org ref) (.releasing org ref .looking)
  | expireDue : Starts now (.expireDue limit org) (.sweeping limit org)
  | usage : Starts now (.usage x) (.metering x false .looking)
  | grant : Starts now (.grant g) (.granting g .source)
  | grantOnDemand :
    Starts now (.grantOnDemand p customerId at') (.grantingOnDemand p customerId at' .source)
  | refund {r : RefundInput} (h : r.check = none) : Starts now (.refund r) (.refunding r .source)
  | freezeFunding : Starts now (.freezeFunding org ref) (.freezing org ref)
  | unfreezeFunding :
    Starts now (.unfreezeFunding org ref n sum) (.unfreezing org ref n sum .fence)
  | wallet {w : Wallet.Call} (h : foreign w) : Starts now (.wallet w) (.wallet w.start)

theorem Call.starts (now : Instant) (call : Call) : call.Starts now (call.start now) := by
  have hcheck : ∀ (check : Option ErrorCode) client,
      (check = none → call.Starts now client) →
        call.Starts now (check.elim client call.throws) := by
    intro check client h
    cases check with
    | none => exact h rfl
    | some => exact .throws call _
  have hif : ∀ (p : Prop) [Decidable p] client code, (p → call.Starts now client) →
      call.Starts now (if p then client else call.throws code) := by
    intro p _ client code h
    split
    · next hp => exact h hp
    · exact .throws call _
  cases call with
  | hold | capture | usage | refund => exact hcheck _ _ fun h => by constructor <;> exact h
  | grantOnDemand => exact .grantOnDemand
  | _ => exact hif _ _ _ fun h => by constructor <;> exact h

/-- The next statement of a call, and the tables it leaves. -/
def Client.step (t : Tables) (c : Circumstance) : Client → Client × Tables
  | .idle => (.idle, t)
  | .holding x attempted stage => x.step attempted t c stage
  | .readingHold org ref =>
    if c.refused then ((Call.readHold org ref).throws .refused, t)
    else (readHold org ref c.now (t.held org ref), t)
  | .capturing x =>
    if c.refused then ((Call.capture x).throws .refused, t)
    else (x.answer (t.held x.org x.reference), t)
  | .releasing org ref stage => releaseStep org ref t c stage
  | .sweeping limit org => (sweep limit org (t.due limit org c.now), t)
  | .closing call rest refuses x stage => x.step call rest refuses t c stage
  | .metering x attempted stage => x.step attempted t c stage
  | .granting g stage => g.step t c stage
  | .grantingOnDemand p customerId expiresAt stage => p.step customerId expiresAt t c stage
  | .refunding r stage => r.step t c stage
  | .freezing org fundingRef => freezeStep org fundingRef t c
  | .unfreezing org fundingRef generation cumulative stage =>
    let call := Call.unfreezeFunding org fundingRef generation cumulative
    unfreezeStep call (.unfreezing org fundingRef generation cumulative) (.finished call .done)
      org fundingRef generation cumulative t c stage
  | .wallet w =>
    let r := w.step t.money c.toCircumstance
    (.wallet r.1, { t with money := r.2 })
  | .finished call reply => (.finished call reply, t)

/-! ### Any number of clients -/

/-- The tables are the same but for fences and readbacks. -/
def Tables.sameMoney (t t' : Tables) : Bool :=
  decide ({ t' with
    money := { t'.money with fences := t.money.fences }
    readbacks := t.readbacks } = t)

/-- The tables, the clock, where each client stands, the tables its call began with, and how
often its own statements have changed the tables, and how often more than fences and readbacks. -/
structure System where
  db : Tables := {}
  clock : Instant := 0
  client : ℕ → Client := fun _ => .idle
  started : ℕ → Tables := fun _ => {}
  changes : ℕ → ℕ := fun _ => 0
  moves : ℕ → ℕ := fun _ => 0

/-- One move: of a call, a process, the clock or a tariff. -/
inductive Action where
  /-- A client makes its next call. -/
  | call (i : ℕ) (call : Call)
  /-- The next statement of a client's call. -/
  | step (i : ℕ) (c : Circumstance)
  /-- A client's process stops. -/
  | crash (i : ℕ)
  | tick (now : Instant)
  /-- A tariff is registered. -/
  | register (x : Tariff)

/-- Every statement is stamped by the clock. -/
def Circumstance.atClock (c : Circumstance) (now : Instant) : Circumstance :=
  { c with toCircumstance := { c.toCircumstance with now := now } }

/-- The machine of all interleavings of the calls. -/
def orgs : Machine System Action where
  init := {}
  next s
    | .call i call =>
        some { s with
          client := Function.update s.client i (call.start s.clock)
          started := Function.update s.started i s.db
          changes := Function.update s.changes i 0
          moves := Function.update s.moves i 0 }
    | .step i c =>
        let result := (s.client i).step s.db (c.atClock s.clock)
        some { s with
          db := result.2
          client := Function.update s.client i result.1
          changes := Function.update s.changes i
            (if result.2 = s.db then s.changes i else s.changes i + 1)
          moves := Function.update s.moves i
            (if s.db.sameMoney result.2 then s.moves i else s.moves i + 1) }
    | .crash i => some { s with client := Function.update s.client i .idle }
    | .tick now => if s.clock ≤ now then some { s with clock := now } else none
    | .register x => (s.db.registerTariff x).map fun t => { s with db := t }

end Takoserver.Org
