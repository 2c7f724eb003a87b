import Takoserver.Org.Tables
import Takoserver.Text

/-!
# What the calls compute, and the batches they commit

The arguments of `src/org-billing.ts` and `src/stripe-billing-store.ts`, what each
call computes from the rows it reads, and its batch, `none` where a statement
aborts.  The allocations of a hold and of a usage record are the wallet's debits,
and a refund's figures are the wallet's `RefundCall.plan`.
-/

namespace Takoserver.Org

open Wallet (Instant Admission Pick Selection DebitCall)

/-- What a step reads from outside these tables. -/
structure Circumstance extends Wallet.Circumstance where
  /-- `prepareAdmission`. -/
  admission : Option Admission := none
  /-- The billing is composed with a limit policy. -/
  limitPolicy : Bool := false
  /-- The batch commits and its acknowledgement is lost. -/
  lost : Bool := false
  /-- `fundFreshAdmission` returns `true`. -/
  funded : Bool := false

/-- The codes of `OrgBillingError`. -/
inductive ErrorCode where
  | invalidReference
  | invalidFingerprint
  | invalidAmount
  | invalidQuantity
  | invalidUsagePeriod
  | referenceConflict
  | holdNotFound
  | holdClosed
  | captureExceedsHold
  | measurementConflict
  | pricingRevisionUnavailable
  | usagePeriodCrossesTariff
  | outstandingUsage
  | refundReceivable
  | insufficientFunds
  | billingUnavailable
  /-- A check outside these tables refuses the call. -/
  | refused
  | sqlError
  | invalidGrant
  | grantConflict
  | invalidRefund
  | invalidNativeProof
  | refundDrainIncomplete
  | refundConflict
  | refundOutOfOrder
  | holdConflict
  | conservationViolated
  | freezeChanged
  | refundUnavailable

/-! ### Arguments -/

/-- A letter or digit, then at most 127 characters of a reference. -/
def validReference (s : String) : Bool :=
  match s.toList with
  | [] => false
  | c :: cs =>
    c.isAlphanum && decide (cs.length ≤ 127) &&
      cs.all fun c => c.isAlphanum || c = '.' || c = '_' || c = ':' || c = '-'

/-- At most 256 units without control characters. -/
def validFingerprint (s : String) : Bool :=
  decide (1 ≤ Text.utf16Length s ∧ Text.utf16Length s ≤ 256) &&
    !s.toList.any fun c => c.toNat < 32 || c.toNat = 127

/-- An amount the store can hold exactly. -/
def spendableMicros (n : ℕ) : Bool := decide ((n : ℤ) ≤ maxSafeInteger)

/-- The number that decimal digits write. -/
def ofDigits (cs : List Char) : ℕ := cs.foldl (fun n c => 10 * n + (c.toNat - '0'.toNat)) 0

/-- `0|[1-9][0-9]*`. -/
def canonicalDigits : List Char → Bool
  | [] => false
  | ['0'] => true
  | c :: cs => c.isDigit && c ≠ '0' && cs.all Char.isDigit

/-- `decimalInteger`. -/
def decimalInteger (s : String) : Bool := decide (s.length ≤ 256) && canonicalDigits s.toList

/-! ### Holds -/

/-- What `hold` is asked. -/
structure HoldInput where
  org : String
  reference : String
  amountMicros : ℕ
  pricingRevision : String
  measurementFingerprint : String
  workspaceRef : Option String := none

/-- What the batch of `admitHold` is built from. -/
structure HoldPlan (amount : ℕ) where
  instant : Instant
  expiresAt : Instant
  admission : Option Admission
  selection : Selection amount

namespace HoldInput

variable (x : HoldInput)

/-- The checks before the first statement. -/
def check : Option ErrorCode :=
  if !validReference x.reference then some .invalidReference
  else if !spendableMicros x.amountMicros then some .invalidAmount
  else if !validFingerprint x.measurementFingerprint then some .invalidFingerprint
  else none

/-- What a repeated call has to agree in. -/
def signature : HoldSignature :=
  ⟨x.amountMicros, x.pricingRevision, x.measurementFingerprint, x.workspaceRef⟩

/-- The debit of the wallet. -/
def debit (admission : Option Admission) : DebitCall :=
  ⟨x.org, .hold, holdRef x.reference, x.amountMicros, admission⟩

/-- The row the call inserts. -/
def row (instant expiresAt : Instant) : Hold :=
  { org := x.org
    ref := x.reference
    amountMicros := x.amountMicros
    fingerprint := some x.signature
    pricingRevision := some x.pricingRevision
    createdAt := instant
    expiresAt := some expiresAt
    state := .live
    workspaceRef := x.workspaceRef }

/-- No entry of a hold, a capture or a release stands under the reference. -/
def unsettled (t : Wallet.Tables) (org ref : String) : Bool :=
  !t.ledger.any fun e => e.org = org ∧ e.ref = ref ∧
    (e.type = .hold ∨ e.type = .capture ∨ e.type = .release)

/-- The batch of `admitHold`. -/
def batch (plan : HoldPlan x.amountMicros) (c : Circumstance) (t : Tables) : Option Tables := do
  let t ← t.guard !c.vetoed
  let t ← t.insertHold (x.row plan.instant plan.expiresAt)
  let t ← t.guard (!t.pendingUsage x.org && t.money.receivableClear x.org &&
    unsettled t.money x.org (holdRef x.reference))
  if x.amountMicros = 0 then some t
  else
    t.lift ((x.debit plan.admission).batch plan.selection.picks plan.instant c.toCircumstance)

end HoldInput

/-- The arguments of `close`. -/
structure Closing where
  row : Hold
  state : HoldState
  captured : ℕ
  captureFingerprint : Option CaptureSignature
  actualMicros : Option String

/-- `close(row, "expired", 0)`. -/
def Closing.expiry (row : Hold) : Closing := ⟨row, .expired, 0, none, none⟩

namespace Closing

variable (x : Closing)

/-- The deadline is not over, or for an expiry is. -/
def inTime (instant : Instant) (h : Hold) : Bool :=
  match h.expiresAt with
  | none => false
  | some expiresAt =>
    if x.state = .expired then decide (expiresAt ≤ instant) else decide (instant < expiresAt)

/-- The row as `close` leaves it. -/
def closed (instant : Instant) (h : Hold) : Hold :=
  { h with
    state := x.state
    capturedMicros := x.captured
    releasedMicros := x.row.amountMicros - x.captured
    captureFingerprint := x.captureFingerprint
    actualMicros := x.actualMicros
    closedAt := some instant }

/-- The `INSERT` statements of the captured allocations. -/
def captures : List Pick → Wallet.Tables → Option Wallet.Tables
  | [], m => some m
  | p :: picks, m =>
    (m.insertAllocation ⟨x.row.org, .capture, x.row.ledgerRef, p.lotRef, p.amount⟩).bind
      (captures picks)

/-- The ledger still has the whole hold, and nothing was settled of it. -/
def holds (m : Wallet.Tables) : Bool :=
  decide (m.heldOf x.row.org x.row.ledgerRef = x.row.amountMicros ∧
    m.allocatedBy x.row.org .hold x.row.ledgerRef = x.row.amountMicros) &&
    !m.ledger.any fun e => e.org = x.row.org ∧ e.ref = x.row.ledgerRef ∧
      (e.type = .capture ∨ e.type = .release)

/-- The wallet's statements of a close. -/
def settle (picks : List Pick) (m : Wallet.Tables) : Option Wallet.Tables := do
  let m ← m.guard !(decide (0 < x.captured) && m.holdFenced x.row.org x.row.ledgerRef)
  let m ← m.guard (x.holds m)
  let m ← x.captures picks m
  let m := m.deleteHolds x.row.org x.row.ledgerRef
  let m ← (if 0 < x.captured then
      m.insertEntry ⟨x.row.org, .capture, x.row.ledgerRef, -x.captured, -x.captured⟩
    else some m)
  if x.captured < x.row.amountMicros then
    m.insertEntry ⟨x.row.org, .release, x.row.ledgerRef, 0, x.captured - x.row.amountMicros⟩
  else some m

/-- The batch of `close`. -/
def batch (instant : Instant) (picks : List Pick) (c : Circumstance) (t : Tables) :
    Option Tables := do
  let t ← t.guard !c.vetoed
  let t ← t.closeHold x.row.org x.row.ref (x.inTime instant) (x.closed instant)
  t.lift (x.settle picks)

end Closing

/-- What `capture` is asked. -/
structure CaptureInput where
  org : String
  reference : String
  amountMicros : ℕ
  actualMicros : String
  measurementFingerprint : String

namespace CaptureInput

variable (x : CaptureInput)

/-- The checks before the first statement. -/
def check : Option ErrorCode :=
  if !validReference x.reference then some .invalidReference
  else if !spendableMicros x.amountMicros then some .invalidAmount
  else if !validFingerprint x.measurementFingerprint then some .invalidFingerprint
  else if !decimalInteger x.actualMicros then some .invalidAmount
  else none

/-- What a repeated call has to agree in. -/
def signature : CaptureSignature := ⟨x.amountMicros, x.actualMicros, x.measurementFingerprint⟩

/-- `cappedActual`. -/
def cappedActual (row : Hold) : ℕ := min (ofDigits x.actualMicros.toList) row.amountMicros

/-- The `close` of a capture. -/
def closing (row : Hold) : Closing :=
  ⟨row, if x.amountMicros = 0 then .released else .captured, x.amountMicros, some x.signature,
    some x.actualMicros⟩

end CaptureInput

/-- The row that `release` inserts under a reference that has none. -/
def tombstone (org ref : String) (instant : Instant) : Hold :=
  { org := org
    ref := ref
    amountMicros := 0
    fingerprint := none
    pricingRevision := none
    createdAt := instant
    expiresAt := none
    state := .released
    closedAt := some instant }

/-! ### Usage -/

/-- A decimal number, as a fraction. -/
structure Quantity where
  numerator : ℕ
  denominator : ℕ

/-- `decimalQuantity`. -/
def decimalQuantity (s : String) : Option Quantity :=
  let whole := s.toList.takeWhile (· ≠ '.')
  if s.length ≤ 256 ∧ canonicalDigits whole then
    match s.toList.dropWhile (· ≠ '.') with
    | [] => some ⟨ofDigits whole, 1⟩
    | _ :: fraction =>
      if fraction ≠ [] ∧ fraction.length ≤ 18 ∧ fraction.all Char.isDigit ∧
          fraction.getLast? ≠ some '0' then
        some ⟨ofDigits (whole ++ fraction), 10 ^ fraction.length⟩
      else none
  else none

/-- `computeMeterAmountMicros`. -/
def computeMeterAmountMicros (quantity : ℕ) (m : Meter) (quantityDenominator : ℕ) : Option ℕ :=
  if quantityDenominator = 0 ∨ m.numeratorMicros = 0 ∨ m.denominator = 0 then none
  else
    let denominator := m.denominator * quantityDenominator
    let amount := (quantity * m.numeratorMicros + denominator - 1) / denominator
    if (amount : ℤ) ≤ maxSafeInteger then some amount else none

/-- What `usage` is asked. -/
structure UsageInput where
  org : String
  reference : String
  meter : String
  quantity : String
  quantityUnit : String
  periodStart : Instant
  periodEnd : Instant
  pricingRevision : String
  expectedMicros : ℕ
  measurementFingerprint : String
  workspaceRef : Option String := none

namespace UsageInput

variable (x : UsageInput)

/-- The checks before the first statement. -/
def check (now : Instant) : Option ErrorCode :=
  if !validReference x.reference then some .invalidReference
  else if !validFingerprint x.measurementFingerprint then some .invalidFingerprint
  else if !spendableMicros x.expectedMicros then some .invalidAmount
  else if (decimalQuantity x.quantity).isNone then some .invalidQuantity
  else if x.periodEnd ≤ x.periodStart ∨ now < x.periodEnd then some .invalidUsagePeriod
  else none

/-- What a repeated call has to agree in. -/
def signature : UsageSignature :=
  ⟨x.meter, x.quantity, x.quantityUnit, x.periodStart, x.periodEnd, x.pricingRevision,
    x.expectedMicros, x.measurementFingerprint, x.workspaceRef⟩

/-- The amount of a quantity under a meter. -/
def amount (q : Quantity) (m : Meter) : Except ErrorCode ℕ :=
  if m.unit = "byte-hour" then
    if x.quantityUnit = "byte-millisecond" ∧ q.denominator = 1 then
      (computeMeterAmountMicros q.numerator m (q.denominator * 3600000)).elim
        (.error .invalidAmount) .ok
    else .error .invalidQuantity
  else if x.quantityUnit = m.unit then
    (computeMeterAmountMicros q.numerator m q.denominator).elim (.error .invalidAmount) .ok
  else .error .invalidQuantity

/-- The meter and the amount of the usage, under the tariff of its period. -/
def measured (t : Tables) : Except ErrorCode (Meter × ℕ) :=
  match decimalQuantity x.quantity, t.tariffAt x.periodStart with
  | none, _ => .error .invalidQuantity
  | _, none => .error .pricingRevisionUnavailable
  | some q, some tariff =>
    match tariff.meters.find? fun m => m.name = x.meter with
    | none => .error .pricingRevisionUnavailable
    | some m =>
      if x.pricingRevision ≠ tariff.revision then .error .pricingRevisionUnavailable
      else if t.tariffs.any fun y => x.periodStart < y.effectiveAt ∧ y.effectiveAt < x.periodEnd then
        .error .usagePeriodCrossesTariff
      else
        match x.amount q m with
        | .error e => .error e
        | .ok amount =>
          if amount = x.expectedMicros then .ok (m, amount) else .error .measurementConflict

/-- The pending record of the usage. -/
def record (m : Meter) (amount : ℕ) (admission : Option Admission) (instant : Instant) :
    UsageRecord :=
  { org := x.org
    ref := x.reference
    fingerprint := x.signature
    pricingRevision := x.pricingRevision
    meter := x.meter
    quantity := x.quantity
    quantityUnit := x.quantityUnit
    periodStart := x.periodStart
    periodEnd := x.periodEnd
    rateNumeratorMicros := m.numeratorMicros
    rateDenominator := m.denominator
    amountMicros := amount
    state := .pending
    createdAt := instant
    admission := admission
    workspaceRef := x.workspaceRef }

/-- The batch that inserts the pending record. -/
def batch (u : UsageRecord) (c : Circumstance) (t : Tables) : Option Tables := do
  let t ← t.guard (!c.vetoed && t.money.receivableClear x.org)
  t.insertUsage u

end UsageInput

/-- What the batch that pays a usage record is built from. -/
structure PayPlan (amount : ℕ) where
  instant : Instant
  admission : Option Admission
  selection : Selection amount

namespace UsageRecord

variable (u : UsageRecord)

/-- The payment of the record from the wallet. -/
def debit (admission : Option Admission) : DebitCall :=
  ⟨u.org, .usage, usageRef u.ref, u.amountMicros, admission⟩

/-- `pinnedUsageAdmission`. -/
def pinned (c : Circumstance) : Option Admission :=
  match u.admission with
  | some a => some a
  | none => if c.limitPolicy then some ⟨false⟩ else none

/-- The batch that pays the record. -/
def batch (plan : PayPlan u.amountMicros) (c : Circumstance) (t : Tables) : Option Tables := do
  let t ← t.guard !c.vetoed
  let t ← t.payUsage u.org u.ref plan.instant
  let t ← t.guard (t.money.receivableClear u.org)
  if u.amountMicros = 0 then some t
  else
    t.lift ((u.debit plan.admission).batch plan.selection.picks plan.instant c.toCircumstance)

end UsageRecord

/-! ### Grants -/

namespace Grant

variable (g : Grant)

/-- The checks of `grant`'s arguments. -/
def valid : Bool :=
  decide ((g.amountMicros : ℤ) ≤ maxSafeInteger ∧ 0 < g.considerationMicros ∧
    (g.considerationMicros : ℤ) ≤ maxSafeInteger) &&
    !decide (g.kind = .purchased ∧ g.amountMicros ≠ g.considerationMicros) &&
    decide (g.org ≠ "" ∧ g.fundingRef ≠ "" ∧ g.sourceId ≠ "" ∧ g.chargeId ≠ "") &&
    decide ((g.kind = .purchased ∧ g.sourceType = .checkout) ∨
      (g.kind = .planIncluded ∧ g.sourceType = .invoice)) &&
    (g.sourceType ≠ .invoice || (g.subscriptionId.isSome && g.planKey.isSome &&
      g.pricingRevision.isSome && g.stripePriceId.isSome &&
      match g.periodStart, g.periodEnd with
      | some s, some e => decide (s < e)
      | _, _ => false))

/-- Only what was purchased is of the class `purchased`. -/
def consumptionClass : Wallet.ConsumptionClass :=
  if g.kind = .purchased then .purchased else .subscription

/-- The lot of the grant. -/
def lot (now : Instant) : Wallet.Lot :=
  ⟨g.org, g.fundingRef, g.kind, g.consumptionClass, g.amountMicros, g.expiresAt, now⟩

/-- The funding entry of the grant. -/
def entry : Wallet.Entry := ⟨g.org, .funding, g.fundingRef, g.amountMicros, 0⟩

/-- `legacyLot`: the lot is one of before the grants, of the grant's checkout. -/
def legacyLot (l : Wallet.Lot) : Bool :=
  decide (g.kind = .purchased ∧ g.sourceType = .checkout ∧ g.fundingRef = "stripe:" ++ g.sourceId ∧
    g.expiresAt = none ∧ l.kind = .direct ∧ l.consumptionClass = .purchased ∧
    l.amountMicros = g.amountMicros ∧ l.expiresAt = none)

/-- `lotStatements`. -/
def fund (now : Instant) (m : Wallet.Tables) : Option Wallet.Tables := do
  let m ← (if (m.lot g.org g.fundingRef).isSome then none
    else some { m with lots := m.lots ++ [g.lot now] })
  m.insertEntry g.entry

/-- The guard of a legacy lot. -/
def legacyHolds (t : Tables) : Bool :=
  (t.money.lot g.org g.fundingRef).any g.legacyLot &&
    (t.money.entry g.org .funding g.fundingRef).any (fun e =>
      e.settledDeltaMicros = (g.amountMicros : ℤ) ∧ e.heldDeltaMicros = 0) &&
    !t.grants.any fun g' => g'.key = g.key

/-- `conservationStatement`. -/
def conserves (now : Instant) (m : Wallet.Tables) : Bool :=
  let settled := m.settledBalance { now := now } g.org
  let held := m.heldBalance g.org
  (m.lot g.org g.fundingRef).any (fun l => l.kind = g.kind ∧
      l.consumptionClass = g.consumptionClass ∧ l.amountMicros = g.amountMicros ∧
      l.expiresAt = g.expiresAt) &&
    (m.entry g.org .funding g.fundingRef).any (fun e =>
      e.settledDeltaMicros = (g.amountMicros : ℤ) ∧ e.heldDeltaMicros = 0) &&
    decide (held = m.allocatedHeld g.org ∧ 0 ≤ held ∧ held ≤ maxSafeInteger ∧
      held ≤ settled ∧ settled ≤ maxSafeInteger)

/-- The batch of `grant`. -/
def batch (legacy : Bool) (now : Instant) (c : Circumstance) (t : Tables) : Option Tables := do
  let t ← t.guard (!c.vetoed && (!legacy || g.legacyHolds t))
  let funds := decide (0 < g.amountMicros) && !legacy
  let t ← (if funds then t.lift (g.fund now) else some t)
  let t ← t.insertGrant g
  t.guard ((g.sourceType ≠ .invoice || g.periodStart.any fun s => s ≤ now) &&
    (!funds || g.conserves now t.money))

end Grant

namespace NativeProof

variable (p : NativeProof)

/-- A cent is ten thousand micros. -/
def refundedMicros : ℕ := p.refundedAmountMinor * 10000

/-- The readback the proof is recorded as. -/
def readback : Readback := ⟨p.org, p.fundingRef, p.refundedAmountMinor⟩

/-- The grant of a payment. -/
def grant (customerId : String) (expiresAt : Option Instant) : Grant :=
  { org := p.org
    fundingRef := p.fundingRef
    kind := .purchased
    amountMicros := p.amountMinor * 10000
    expiresAt := expiresAt
    sourceType := .paymentIntent
    sourceId := p.paymentIntentId
    chargeId := p.chargeId
    customerId := some customerId
    considerationMicros := p.amountMinor * 10000 }

/-- The batch of `grantOnDemand`, as far as it is about these tables: the statements on the
command and its cash exposure are among those `vetoed` speaks for. -/
def grantBatch (customerId : String) (expiresAt : Option Instant) (now : Instant)
    (c : Circumstance) (t : Tables) : Option Tables := do
  let g := p.grant customerId expiresAt
  let t ← t.guard (!c.vetoed && decide (0 < p.amountMinor) &&
    (p.refundedAmountMinor = 0 || t.money.fenced p.org p.fundingRef))
  let t := if 0 < t.nativeFloor p.org p.fundingRef then t.freezeObserved p.org p.fundingRef else t
  let t := { t with readbacks := t.readbacks ++ [p.readback] }
  let t ← t.lift (g.fund now)
  let t ← t.insertGrant g
  t.guard (g.conserves now t.money)

/-- The batch of `observeNativeRefund`, `floor` being the one it read. -/
def observe (floor : ℕ) (t : Tables) : Tables :=
  let t := if t.refunded p.org p.fundingRef < max p.refundedMicros floor then
      t.freezeObserved p.org p.fundingRef
    else t
  -- the funding's command is paid
  if t.nativeFloor p.org p.fundingRef < p.refundedMicros ∧
      t.grants.any fun g => g.key = (p.org, p.fundingRef) ∧ g.sourceType = .paymentIntent then
    { t with readbacks := t.readbacks ++ [p.readback] }
  else t

end NativeProof

/-! ### Refunds -/

/-- What `refund` is asked. -/
structure RefundInput where
  refundId : String
  grant : Grant
  amountMicros : ℕ
  cumulativeRefundedMicros : ℕ
  fenceGeneration : ℕ
  releaseFreeze : Bool := true
  native : Option NativeProof := none

/-- A hold that a refund closes: what is held for its reference, and whether it is an
organization's. -/
structure Closure where
  ref : String
  held : ℕ
  hasRow : Bool

/-- What a refund has decided to write. -/
structure RefundPlan where
  now : Instant
  closures : List Closure
  figures : Wallet.RefundPlan

namespace RefundInput

variable (r : RefundInput)

/-- The proof a refund goes by: that of a PaymentIntent's funding. -/
def proof : Option NativeProof :=
  if r.grant.sourceType = .paymentIntent then r.native else none

/-- The refund as the wallet's tables see it. -/
def call : Wallet.RefundCall where
  refundId := r.refundId
  org := r.grant.org
  fundingRef := r.grant.fundingRef
  grantMicros := r.grant.amountMicros
  considerationMicros := r.grant.considerationMicros
  amountMicros := r.amountMicros
  cumulativeRefundedMicros := r.cumulativeRefundedMicros
  fenceGeneration := r.fenceGeneration
  releaseFreeze := r.releaseFreeze

/-- The checks before the first statement. -/
def check : Option ErrorCode :=
  if r.amountMicros = 0 ∨ r.cumulativeRefundedMicros = 0 ∨ r.fenceGeneration = 0 then
    some .invalidAmount
  else if r.refundId = "" ∨ r.grant.considerationMicros < r.cumulativeRefundedMicros then
    some .invalidRefund
  else none

/-- The proof is of the grant's own PaymentIntent. -/
def matchesProof (p : NativeProof) : Bool :=
  decide (p.org = r.grant.org ∧ p.fundingRef = r.grant.fundingRef ∧
    p.paymentIntentId = r.grant.sourceId ∧ p.chargeId = r.grant.chargeId ∧
    p.refundedAmountMinor ≤ p.amountMinor)

/-- The receipt's columns that the wallet reads. -/
def refundRow (plan : Wallet.RefundPlan) : Wallet.Refund where
  id := r.refundId
  org := r.grant.org
  fundingRef := r.grant.fundingRef
  amountMicros := r.amountMicros
  targetRevokedMicros := plan.target
  debitMicros := plan.debit
  receivableMicros := plan.receivable
  expiredMicros := plan.expired

/-- The receipt is of this refund. -/
def receiptMatches (row : Wallet.Refund × Receipt) : Bool :=
  decide (row.1.org = r.grant.org ∧ row.1.fundingRef = r.grant.fundingRef ∧
    row.1.amountMicros = r.amountMicros ∧
    row.2.cumulativeRefundedMicros = r.cumulativeRefundedMicros)

/-- A hold's row, released by a refund. -/
def released (now : Instant) (h : Hold) : Hold :=
  { h with
    state := .released
    releasedMicros := h.amountMicros
    closedAt := some now
    closureReason := some "refund" }

/-- The statement that closes an organization's hold, with its guard. -/
def releaseRow (now : Instant) (ref : String) (t : Tables) : Option Tables :=
  if t.holds.any fun h => h.org = r.grant.org ∧ h.ledgerRef = ref ∧ h.state = .live then
    some { t with
      holds := Table.update
        (fun h => h.org = r.grant.org ∧ h.ledgerRef = ref ∧ h.state = .live) (released now)
        t.holds }
  else none

/-- A hold on the refunded lot is released, with its row where it has one. -/
def closeHold (now : Instant) (x : Closure) (t : Tables) : Option Tables := do
  let t ← (if x.hasRow then r.releaseRow now x.ref t else some t)
  t.lift (r.call.closeHold (x.ref, x.held))

/-- `closures`. -/
def closeHolds (now : Instant) : List Closure → Tables → Option Tables
  | [], t => some t
  | x :: xs, t => (r.closeHold now x t).bind (closeHolds now xs)

/-- The batch of `refund`. -/
def batch (plan : RefundPlan) (c : Circumstance) (t : Tables) : Option Tables := do
  let t ← t.guard (!c.vetoed && r.call.fenceHolds plan.figures t.money)
  let t ← r.closeHolds plan.now plan.closures t
  let t ← t.guard (r.call.consistent plan.figures t.money)
  let t ← t.insertReceipt (r.refundRow plan.figures)
    ⟨r.refundId, r.cumulativeRefundedMicros, plan.now, r.proof⟩
  let t ← t.guard (!(r.proof.isSome && r.releaseFreeze) ||
    decide (t.nativeFloor r.grant.org r.grant.fundingRef ≤ r.cumulativeRefundedMicros))
  return if r.releaseFreeze then
    { t with money := t.money.clearFence r.grant.org r.grant.fundingRef r.fenceGeneration }
  else t

end RefundInput

/-- The batch of `unfreezeFunding`. -/
def Tables.unfreeze (t : Tables) (org fundingRef : String) (generation cumulative : ℕ) :
    Option Tables := do
  let t ← t.guard ((t.money.fences.any fun f => f.org = org ∧ f.fundingRef = fundingRef ∧
      f.generation = generation ∧ f.active) &&
    decide (t.refunded org fundingRef = cumulative ∧ t.nativeFloor org fundingRef ≤ cumulative))
  return { t with money := t.money.clearFence org fundingRef generation }

end Takoserver.Org
