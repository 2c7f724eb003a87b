import Takoserver.Lib.Table

/-!
# The wallet's tables

The tables the prepaid wallet of `src/ledger.ts` is made of: credit lots, the
append-only ledger, the allocations that back each debit with lots
(`migrations/0003`, `0017`, `0094`), and the refunds and fences of
`migrations/0095_stripe_billing.sql`.  A statement yields the next tables, or
`none` where a `CHECK`, a unique index or a foreign key aborts its batch.

Amounts are numbers of micros, deltas are integers, and instants are numbers of
milliseconds.
-/

namespace Takoserver.Wallet

/-- Milliseconds. -/
abbrev Instant := ℕ

/-- `kind` of a lot. -/
inductive LotKind where
  | direct
  | planIncluded
  | purchased
  deriving DecidableEq

/-- `consumption_class` of a lot. -/
inductive ConsumptionClass where
  | free
  | subscription
  | purchased
  deriving DecidableEq

/-- `debit_type` of an allocation. -/
inductive DebitType where
  | hold
  | capture
  | usageDebit
  deriving DecidableEq

/-- `entry_type` of an entry. -/
inductive EntryType where
  | funding
  | hold
  | capture
  | release
  | usageDebit
  deriving DecidableEq

/-- `wallet_credit_lots`. -/
structure Lot where
  org : String
  ref : String
  kind : LotKind
  consumptionClass : ConsumptionClass
  amountMicros : ℕ
  expiresAt : Option Instant
  createdAt : Instant
  deriving DecidableEq

/-- `ledger`. -/
structure Entry where
  org : String
  type : EntryType
  ref : String
  settledDeltaMicros : ℤ
  heldDeltaMicros : ℤ
  deriving DecidableEq

/-- `wallet_credit_allocations`. -/
structure Allocation where
  org : String
  debitType : DebitType
  debitRef : String
  lotRef : String
  amountMicros : ℕ
  deriving DecidableEq

/-- `stripe_billing_refunds`, with the rows of `stripe_billing_on_demand_refunds`. -/
structure Refund where
  id : String
  org : String
  fundingRef : String
  amountMicros : ℕ
  targetRevokedMicros : ℕ
  debitMicros : ℕ
  receivableMicros : ℕ
  expiredMicros : ℕ
  deriving DecidableEq

/-- `stripe_billing_fences`. -/
structure Fence where
  org : String
  fundingRef : String
  generation : ℕ
  active : Bool
  deriving DecidableEq

/-! ### Keys -/

/-- The primary key. -/
def Lot.key (l : Lot) : String × String := (l.org, l.ref)

/-- `UNIQUE (org_id, type, ref)`. -/
def Entry.key (e : Entry) : String × EntryType × String := (e.org, e.type, e.ref)

/-- The primary key. -/
def Allocation.key (a : Allocation) : String × DebitType × String × String :=
  (a.org, a.debitType, a.debitRef, a.lotRef)

/-- The primary key. -/
def Fence.key (f : Fence) : String × String := (f.org, f.fundingRef)

theorem Lot.key_eq {l : Lot} {org ref : String} :
    l.key = (org, ref) ↔ l.org = org ∧ l.ref = ref := by
  simp [Lot.key]

theorem Entry.key_eq {e : Entry} {org ref : String} {type : EntryType} :
    e.key = (org, type, ref) ↔ e.org = org ∧ e.type = type ∧ e.ref = ref := by
  simp [Entry.key]

theorem Allocation.key_eq {a : Allocation} {org debitRef lotRef : String} {type : DebitType} :
    a.key = (org, type, debitRef, lotRef) ↔
      a.org = org ∧ a.debitType = type ∧ a.debitRef = debitRef ∧ a.lotRef = lotRef := by
  simp [Allocation.key]

/-- The table of the module docstring of `src/ledger.ts`, with the usage debits that
`prepareLedgerAllocation` adds to it: what an entry of each type may move. -/
def Entry.shape (e : Entry) : Prop :=
  match e.type with
  | .funding => 0 ≤ e.settledDeltaMicros ∧ e.heldDeltaMicros = 0
  | .hold => e.settledDeltaMicros = 0 ∧ 0 ≤ e.heldDeltaMicros
  | .capture => e.settledDeltaMicros = e.heldDeltaMicros ∧ e.heldDeltaMicros ≤ 0
  | .release => e.settledDeltaMicros = 0 ∧ e.heldDeltaMicros ≤ 0
  | .usageDebit => e.settledDeltaMicros ≤ 0 ∧ e.heldDeltaMicros = 0

/-- The tables of the wallet. -/
structure Tables where
  lots : List Lot := []
  ledger : List Entry := []
  allocations : List Allocation := []
  refunds : List Refund := []
  fences : List Fence := []
  deriving DecidableEq

namespace Tables

variable (t : Tables)

/-- The lot of a funding. -/
def lot (org ref : String) : Option Lot := Table.find Lot.key t.lots (org, ref)

/-- The entry of a reference. -/
def entry (org : String) (type : EntryType) (ref : String) : Option Entry :=
  Table.find Entry.key t.ledger (org, type, ref)

/-! ### Sums -/

/-- `SUM(held_delta_micros)` over the ledger entries of the references `q` picks. -/
def heldWhere (q : String → String → Bool) : ℤ :=
  Table.sumIf (fun e => q e.org e.ref) Entry.heldDeltaMicros t.ledger

/-- `SUM(held_delta_micros) … WHERE org_id = ? AND ref = ?`. -/
def heldOf (org ref : String) : ℤ := t.heldWhere fun o r => o = org ∧ r = ref

/-- `SUM(held_delta_micros) … WHERE org_id = ?`. -/
def heldBalance (org : String) : ℤ := t.heldWhere fun o _ => o = org

/-- `SUM(amount_micros)` over the allocations of one debit type of the references `q` picks. -/
def allocatedWhere (type : DebitType) (q : String → String → Bool) : ℕ :=
  Table.sumIf (fun a => a.debitType = type && q a.org a.debitRef) Allocation.amountMicros
    t.allocations

/-- `SUM(amount_micros) … WHERE org_id = ? AND debit_type = ? AND debit_ref = ?`. -/
def allocatedBy (org : String) (type : DebitType) (ref : String) : ℕ :=
  t.allocatedWhere type fun o r => o = org ∧ r = ref

/-- `SUM(amount_micros) … WHERE org_id = ? AND debit_type = 'hold'`. -/
def allocatedHeld (org : String) : ℕ := t.allocatedWhere .hold fun o _ => o = org

/-- `SUM(a.amount_micros)` over the allocations of a lot whose debit type is one of `types`. -/
def allocatedFrom (types : List DebitType) (org lotRef : String) : ℕ :=
  Table.sumIf (fun a => a.org = org ∧ a.lotRef = lotRef ∧ a.debitType ∈ types)
    Allocation.amountMicros t.allocations

/-- Every allocation of a lot. -/
def allocatedTo (org lotRef : String) : ℕ :=
  Table.sumIf (fun a => a.org = org ∧ a.lotRef = lotRef) Allocation.amountMicros t.allocations

/-- `SUM(f)` over the refunds of a funding reference. -/
def refundSum (f : Refund → ℕ) (org fundingRef : String) : ℕ :=
  Table.sumIf (fun r => r.org = org ∧ r.fundingRef = fundingRef) f t.refunds

/-- `MAX(target_revoked_micros)` over the refunds of a funding reference. -/
def refundTarget (org fundingRef : String) : ℕ :=
  ((t.refunds.filter fun r => r.org = org ∧ r.fundingRef = fundingRef).map
    Refund.targetRevokedMicros).foldl max 0

/-- `remainingSql` of `prepareLedgerEligibility`: what a lot has left. -/
def remaining (l : Lot) : ℤ :=
  l.amountMicros - t.allocatedTo l.org l.ref - t.refundSum Refund.debitMicros l.org l.ref

/-- A lot is frozen while a refund of its funding is under way. -/
def fenced (org fundingRef : String) : Bool :=
  t.fences.any fun f => f.org = org ∧ f.fundingRef = fundingRef ∧ f.active

/-- `receivableClear`: no refund left a receivable. -/
def receivableClear (org : String) : Bool :=
  !t.refunds.any fun r => r.org = org ∧ 0 < r.receivableMicros

/-- Some hold allocation of a reference is on a frozen lot. -/
def holdFenced (org ref : String) : Bool :=
  t.allocations.any fun a =>
    decide (a.org = org ∧ a.debitType = .hold ∧ a.debitRef = ref) && t.fenced org a.lotRef

/-! ### Statements -/

/-- `INSERT OR IGNORE INTO wallet_credit_lots`. -/
def insertLotOrIgnore (l : Lot) : Tables :=
  if (t.lot l.org l.ref).isSome then t else { t with lots := t.lots ++ [l] }

/-- `INSERT INTO ledger`. -/
def insertEntry (e : Entry) : Option Tables :=
  if (t.entry e.org e.type e.ref).isSome then none else some { t with ledger := t.ledger ++ [e] }

/-- `INSERT OR IGNORE INTO ledger`. -/
def insertEntryOrIgnore (e : Entry) : Tables := (t.insertEntry e).getD t

/-- `INSERT INTO wallet_credit_allocations`, with its primary key, its foreign key and its
`CHECK`. -/
def insertAllocation (a : Allocation) : Option Tables :=
  if (Table.find Allocation.key t.allocations a.key).isSome ∨ (t.lot a.org a.lotRef).isNone ∨
      a.amountMicros = 0 then none
  else some { t with allocations := t.allocations ++ [a] }

/-- The row an `INSERT OR IGNORE INTO wallet_credit_allocations … SELECT … WHERE` inserts:
its key is free, and its lot passes `admits` and still has the amount left. -/
def takes (admits : Lot → Bool) (a : Allocation) : Bool :=
  (Table.find Allocation.key t.allocations a.key).isNone &&
    match t.lot a.org a.lotRef with
    | some l => admits l && decide ((a.amountMicros : ℤ) ≤ t.remaining l)
    | none => false

/-- `INSERT OR IGNORE INTO wallet_credit_allocations … SELECT … WHERE`. -/
def insertAllocationIfCovered (admits : Lot → Bool) (a : Allocation) : Tables :=
  if t.takes admits a then { t with allocations := t.allocations ++ [a] } else t

/-- `DELETE FROM wallet_credit_allocations` of one hold row that still has an amount. -/
def deleteHold (org ref lotRef : String) (amount : ℕ) : Tables :=
  { t with
    allocations := t.allocations.filter fun a =>
      !decide (a.key = (org, .hold, ref, lotRef) ∧ a.amountMicros = amount) }

/-- `UPDATE wallet_credit_allocations SET amount_micros` of one hold row that still has an
amount. -/
def updateHold (org ref lotRef : String) (amount next : ℕ) : Tables :=
  { t with
    allocations := t.allocations.map fun a =>
      if a.key = (org, .hold, ref, lotRef) ∧ a.amountMicros = amount then
        { a with amountMicros := next }
      else a }

/-- `DELETE FROM wallet_credit_allocations` of every hold row of a reference. -/
def deleteHolds (org ref : String) : Tables :=
  { t with
    allocations := t.allocations.filter fun a =>
      !decide (a.org = org ∧ a.debitType = .hold ∧ a.debitRef = ref) }

/-- `INSERT INTO stripe_billing_refunds`, with its primary key and its `CHECK`. -/
def insertRefund (r : Refund) : Option Tables :=
  if (t.refunds.any fun s => s.id = r.id) ∨ r.amountMicros = 0 then none
  else some { t with refunds := t.refunds ++ [r] }

/-- `UPDATE stripe_billing_fences SET active = 0` of one generation. -/
def clearFence (org fundingRef : String) (generation : ℕ) : Tables :=
  { t with
    fences := t.fences.map fun f =>
      if f.key = (org, fundingRef) ∧ f.generation = generation then { f with active := false }
      else f }

/-- A fence is raised, moved to another generation or lowered. -/
def setFence (f : Fence) : Tables :=
  { t with fences := Table.erase Fence.key f.key t.fences ++ [f] }

end Tables

/-- `INSERT INTO wallet_allocation_guards (id, valid)`: the batch goes on while its guard's
`CHECK (valid = 1)` holds. -/
def Tables.guard (t : Tables) (valid : Bool) : Option Tables := if valid then some t else none

end Takoserver.Wallet
