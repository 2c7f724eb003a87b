import Takoserver.Wallet.Batches

/-!
# The tables of an organization's billing

The wallet's tables with what `src/org-billing.ts` and `src/stripe-billing-store.ts`
keep beside them: holds, usage records and tariffs (`migrations/0092`, `0094`),
the grants of Stripe sources, the receipts of their refunds and the readbacks of
native refunds (`migrations/0095`, `0100`).  Grants and receipts stand for the rows
of both of their tables, as the projections over them read.

A signature is the list `JSON.stringify` is applied to.  Rows of before the cutover
to micros are not modelled: from it on a row's money policy is always the new one.
-/

namespace Takoserver.Org

open Wallet (Instant LotKind)

/-! ### Stripe sources and refunds -/

/-- Where a payment comes from. -/
inductive SourceType where
  | checkout
  | invoice
  | paymentIntent
  deriving DecidableEq

/-- `BillingGrant`: `stripe_billing_grants`, with the projection of
`stripe_billing_on_demand_funding`. -/
structure Grant where
  org : String
  fundingRef : String
  kind : LotKind
  amountMicros : ℕ
  expiresAt : Option Instant
  sourceType : SourceType
  sourceId : String
  chargeId : String
  customerId : Option String := none
  subscriptionId : Option String := none
  planKey : Option String := none
  pricingRevision : Option String := none
  stripePriceId : Option String := none
  periodStart : Option Instant := none
  periodEnd : Option Instant := none
  considerationMicros : ℕ
  deriving DecidableEq

/-- What a funding proof of a PaymentIntent says. -/
structure NativeProof where
  org : String
  fundingRef : String
  paymentIntentId : String
  chargeId : String
  amountMinor : ℕ
  refundedAmountMinor : ℕ
  observedAt : Instant
  deriving DecidableEq

/-- The columns of a refund's receipt that the wallet does not read; the others are the
wallet's `Refund` of the same id. -/
structure Receipt where
  refundId : String
  cumulativeRefundedMicros : ℕ
  createdAt : Instant
  /-- `native_receipt_json`. -/
  native : Option NativeProof
  deriving DecidableEq

/-- A qualified refund observation among `stripe_billing_on_demand_attempts`, or the
observation a terminal keeps. -/
structure Readback where
  org : String
  fundingRef : String
  refundedAmountMinor : ℕ
  deriving DecidableEq

/-! ### Holds and usage -/

/-- `state` of a hold. -/
inductive HoldState where
  | live
  | captured
  | released
  | expired
  deriving DecidableEq

/-- The list a hold's `fingerprint` is the text of. -/
structure HoldSignature where
  amountMicros : ℕ
  pricingRevision : String
  measurementFingerprint : String
  workspaceRef : Option String
  deriving DecidableEq

/-- The list a hold's `capture_fingerprint` is the text of. -/
structure CaptureSignature where
  amountMicros : ℕ
  actualMicros : String
  measurementFingerprint : String
  deriving DecidableEq

/-- `org_wallet_holds`. -/
structure Hold where
  org : String
  ref : String
  amountMicros : ℕ
  fingerprint : Option HoldSignature
  pricingRevision : Option String
  createdAt : Instant
  expiresAt : Option Instant
  state : HoldState
  capturedMicros : ℕ := 0
  releasedMicros : ℕ := 0
  captureFingerprint : Option CaptureSignature := none
  actualMicros : Option String := none
  closedAt : Option Instant := none
  closureReason : Option String := none
  workspaceRef : Option String := none
  deriving DecidableEq

/-- `state` of a usage record. -/
inductive UsageState where
  | pending
  | paid
  deriving DecidableEq

/-- The list a usage record's `fingerprint` is the text of. -/
structure UsageSignature where
  meter : String
  quantity : String
  quantityUnit : String
  periodStart : Instant
  periodEnd : Instant
  pricingRevision : String
  expectedMicros : ℕ
  measurementFingerprint : String
  workspaceRef : Option String
  deriving DecidableEq

/-- `org_wallet_usage_records`. -/
structure UsageRecord where
  org : String
  ref : String
  fingerprint : UsageSignature
  pricingRevision : String
  meter : String
  quantity : String
  quantityUnit : String
  periodStart : Instant
  periodEnd : Instant
  rateNumeratorMicros : ℕ
  rateDenominator : ℕ
  amountMicros : ℕ
  state : UsageState
  createdAt : Instant
  paidAt : Option Instant := none
  /-- `admission_policy_json`. -/
  admission : Option Wallet.Admission := none
  workspaceRef : Option String := none
  deriving DecidableEq

/-! ### Tariffs -/

/-- A price, a rational number of micros a unit. -/
structure Meter where
  name : String
  unit : String
  numeratorMicros : ℕ
  denominator : ℕ
  deriving DecidableEq

/-- `org_wallet_pricing_revisions`. -/
structure Tariff where
  revision : String
  effectiveAt : Instant
  holdTtlSeconds : ℕ
  meters : List Meter
  deriving DecidableEq

/-! ### Keys -/

/-- The primary key. -/
def Grant.key (g : Grant) : String × String := (g.org, g.fundingRef)

/-- The primary key. -/
def Hold.key (h : Hold) : String × String := (h.org, h.ref)

/-- The primary key. -/
def UsageRecord.key (u : UsageRecord) : String × String := (u.org, u.ref)

theorem Hold.key_eq {h : Hold} {org ref : String} : h.key = (org, ref) ↔ h.org = org ∧ h.ref = ref := by
  simp [Hold.key]

theorem UsageRecord.key_eq {u : UsageRecord} {org ref : String} :
    u.key = (org, ref) ↔ u.org = org ∧ u.ref = ref := by
  simp [UsageRecord.key]

/-! ### References in the wallet -/

/-- `org-hold:<reference>`. -/
def holdRef (ref : String) : String := "org-hold:" ++ ref

/-- `org-usage:<reference>`. -/
def usageRef (ref : String) : String := "org-usage:" ++ ref

/-- `ledger_ref` of a hold. -/
def Hold.ledgerRef (h : Hold) : String := holdRef h.ref

/-- The reference is one of an organization's holds or usage records. -/
def lifecycle (ref : String) : Bool :=
  "org-hold:".toList.isPrefixOf ref.toList || "org-usage:".toList.isPrefixOf ref.toList

theorem holdRef_inj {a b : String} : holdRef a = holdRef b ↔ a = b := by
  constructor
  · intro h
    have := congrArg String.toList h
    simp only [holdRef, String.toList_append, List.append_cancel_left_eq] at this
    exact String.toList_inj.mp this
  · rintro rfl
    rfl

theorem usageRef_inj {a b : String} : usageRef a = usageRef b ↔ a = b := by
  constructor
  · intro h
    have := congrArg String.toList h
    simp only [usageRef, String.toList_append, List.append_cancel_left_eq] at this
    exact String.toList_inj.mp this
  · rintro rfl
    rfl

@[simp] theorem lifecycle_holdRef (ref : String) : lifecycle (holdRef ref) = true := by
  simp [lifecycle, holdRef, String.toList_append]

@[simp] theorem lifecycle_usageRef (ref : String) : lifecycle (usageRef ref) = true := by
  simp [lifecycle, usageRef, String.toList_append]

/-- The tables of the billing, over those of the wallet. -/
structure Tables where
  money : Wallet.Tables := {}
  receipts : List Receipt := []
  grants : List Grant := []
  readbacks : List Readback := []
  holds : List Hold := []
  usage : List UsageRecord := []
  tariffs : List Tariff := []
  deriving DecidableEq

namespace Tables

variable (t : Tables)

/-! ### Queries -/

/-- The hold of a reference. -/
def held (org ref : String) : Option Hold := Table.find Hold.key t.holds (org, ref)

/-- The usage record of a reference. -/
def usageRow (org ref : String) : Option UsageRecord := Table.find UsageRecord.key t.usage (org, ref)

/-- `SELECT * FROM org_wallet_holds WHERE org_id = ? AND ledger_ref = ?`. -/
def holdOfLedger (org ledgerRef : String) : Option Hold :=
  t.holds.find? fun h => h.org = org ∧ h.ledgerRef = ledgerRef

/-- `source`: the grant of a Stripe source. -/
def source (type : SourceType) (id : String) : Option Grant :=
  t.grants.find? fun g => g.sourceType = type ∧ g.sourceId = id

/-- Some usage of the organization is not paid yet. -/
def pendingUsage (org : String) : Bool := t.usage.any fun u => u.org = org ∧ u.state = .pending

/-- The receipt of a refund, with the columns the wallet reads. -/
def receipt (refundId : String) : Option (Wallet.Refund × Receipt) :=
  match t.money.refunds.find? (fun r => r.id = refundId),
      t.receipts.find? (fun r => r.refundId = refundId) with
  | some r, some r' => some (r, r')
  | _, _ => none

/-- `tariffAt`: the tariff in force at an instant. -/
def tariffAt (instant : Instant) : Option Tariff :=
  (t.tariffs.filter fun x => x.effectiveAt ≤ instant).foldl
    (fun best x => match best with
      | none => some x
      | some b => if b.effectiveAt < x.effectiveAt then some x else some b) none

/-- What the observations of a funding say is refunded, in micros. -/
def observations (org fundingRef : String) : List ℕ :=
  ((t.readbacks.filter fun b : Readback => b.org = org ∧ b.fundingRef = fundingRef).map
      fun b : Readback => b.refundedAmountMinor * 10000) ++
    ((t.receipts.filterMap Receipt.native).filter fun p : NativeProof =>
      p.org = org ∧ p.fundingRef = fundingRef).map fun p : NativeProof => p.refundedAmountMinor * 10000

/-- `onDemandRefundFloor`: the most that any observation says is refunded. -/
def nativeFloor (org fundingRef : String) : ℕ := (t.observations org fundingRef).foldl max 0

/-- `SUM(amount_micros)` of the receipts of a funding. -/
def refunded (org fundingRef : String) : ℕ :=
  t.money.refundSum Wallet.Refund.amountMicros org fundingRef

/-! ### Statements -/

/-- A guard, as in `Wallet.Tables.guard`. -/
def guard (valid : Bool) : Option Tables := if valid then some t else none

/-- The wallet's part of a batch. -/
def lift (f : Wallet.Tables → Option Wallet.Tables) : Option Tables :=
  (f t.money).map fun m => { t with money := m }

/-- `INSERT INTO org_wallet_holds`. -/
def insertHold (h : Hold) : Option Tables :=
  if (t.held h.org h.ref).isSome then none else some { t with holds := t.holds ++ [h] }

/-- `UPDATE org_wallet_holds` of the live row of a key, where `p` holds, and the guard that
it changed one row. -/
def closeHold (org ref : String) (p : Hold → Bool) (f : Hold → Hold) : Option Tables :=
  if t.holds.any fun h => decide (h.key = (org, ref) ∧ h.state = .live) && p h then
    some { t with
      holds := Table.update (fun h => decide (h.key = (org, ref) ∧ h.state = .live) && p h) f
        t.holds }
  else none

/-- `INSERT INTO org_wallet_usage_records`. -/
def insertUsage (u : UsageRecord) : Option Tables :=
  if (t.usageRow u.org u.ref).isSome then none else some { t with usage := t.usage ++ [u] }

/-- `UPDATE org_wallet_usage_records SET state = 'paid'` of a pending row, and the guard that
it changed one row. -/
def payUsage (org ref : String) (instant : Instant) : Option Tables :=
  if t.usage.any fun u => u.key = (org, ref) ∧ u.state = .pending then
    some { t with
      usage := Table.update (fun u => u.key = (org, ref) ∧ u.state = .pending)
        (fun u => { u with state := .paid, paidAt := some instant }) t.usage }
  else none

/-- `INSERT INTO stripe_billing_grants`, with its keys and those of on-demand funding. -/
def insertGrant (g : Grant) : Option Tables :=
  if t.grants.any fun g' => g'.key = g.key ∨ (g'.sourceType = g.sourceType ∧ g'.sourceId = g.sourceId)
  then none else some { t with grants := t.grants ++ [g] }

/-- `INSERT INTO stripe_billing_refunds` or `stripe_billing_on_demand_refunds`, with its keys
and its foreign key. -/
def insertReceipt (row : Wallet.Refund) (r : Receipt) : Option Tables := do
  let t ← t.guard (t.grants.any fun g => g.key = (row.org, row.fundingRef))
  let t ← t.lift fun m => m.insertRefund row
  return { t with receipts := t.receipts ++ [r] }

/-- `fundingFenceStatement` without an observation: the fence is raised under its next
generation. -/
def freeze (org fundingRef : String) : Tables :=
  let generation := (Table.find Wallet.Fence.key t.money.fences (org, fundingRef)).elim 1
    fun f => f.generation + 1
  { t with money := t.money.setFence ⟨org, fundingRef, generation, true⟩ }

/-- The fence of an observation: raised, under its next generation unless it stands. -/
def freezeObserved (org fundingRef : String) : Tables :=
  let generation := (Table.find Wallet.Fence.key t.money.fences (org, fundingRef)).elim 1
    fun f => if f.active then f.generation else f.generation + 1
  { t with money := t.money.setFence ⟨org, fundingRef, generation, true⟩ }

/-- `registerTariffs` of one tariff, under a new revision and a new instant. -/
def registerTariff (x : Tariff) : Option Tables :=
  if t.tariffs.any fun y => y.revision = x.revision ∨ y.effectiveAt = x.effectiveAt then none
  else some { t with tariffs := t.tariffs ++ [x] }

end Tables

end Takoserver.Org
