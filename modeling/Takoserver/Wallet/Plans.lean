import Takoserver.Json
import Takoserver.Wallet.Ledger

/-!
# Plans and batches

What the wallet's calls compute from the rows they read, and the batches they
then commit: `fund`, `prepareLedgerAllocation` and `planHoldSettlement` of
`src/ledger.ts`, the guard `rollUp` of `src/metering.ts` adds to an allocation,
and `refund` of `src/stripe-billing-store.ts`.
-/

namespace Takoserver.Wallet

/-- `sqlMicros` accepts the value. -/
def safe (value : ℤ) : Bool := decide (-(maxSafeInteger : ℤ) ≤ value ∧ value ≤ maxSafeInteger)

/-- What a step reads from outside the wallet's tables: its clock, and what the predicates
over other tables say of a lot. -/
structure Circumstance where
  now : Instant
  /-- `invoiceCreditPeriodEligibleSql`. -/
  inPeriod : Lot → Bool := fun _ => true
  /-- `hostedCreditLotProvenanceSql`. -/
  provenance : Lot → Bool := fun _ => true
  /-- `hostedPaidFreeExclusion` is on and `hostedPaidFreeBlockedSql` holds of the
  organization. -/
  paidFreeBlocked : Bool := false
  /-- A read or check outside the wallet's tables refuses the call. -/
  refused : Bool := false
  /-- A statement on another table (an admission guard, a usage warning, the usage events of
  a roll-up, a hold's own row) aborts the batch. -/
  vetoed : Bool := false

/-- `LedgerAllocationAdmission`. -/
structure Admission where
  allowPurchasedCredit : Bool
  deriving DecidableEq

/-! ### The lots a debit may draw on -/

/-- `allocationEligibilitySql`. -/
def Admission.admits (admission : Option Admission) (c : Circumstance) (l : Lot) : Bool :=
  match admission with
  | none => true
  | some a => (l.consumptionClass ≠ .purchased || a.allowPurchasedCredit) && c.provenance l

/-- `hostedPaidFreeExclusion` takes a free lot out of account. -/
def Circumstance.excludes (c : Circumstance) (l : Lot) : Bool :=
  l.consumptionClass = .free && c.paidFreeBlocked

/-- A lot that has not expired and whose invoice period is the current one. -/
def Circumstance.current (c : Circumstance) (l : Lot) : Bool :=
  (match l.expiresAt with
    | none => true
    | some expiresAt => decide (c.now < expiresAt)) && c.inPeriod l

/-- `lotPredicate` of `prepareLedgerEligibility`. -/
def Tables.lotPredicate (t : Tables) (c : Circumstance) (admission : Option Admission) (l : Lot) :
    Bool :=
  c.current l && Admission.admits admission c l && !c.excludes l && !t.fenced l.org l.ref

/-- `CASE consumption_class WHEN 'free' THEN 0 WHEN 'subscription' THEN 1 ELSE 2 END`. -/
def ConsumptionClass.rank : ConsumptionClass → ℕ
  | .free => 0
  | .subscription => 1
  | .purchased => 2

/-- The `ORDER BY` of the lots a debit draws on. -/
def Lot.compare (a b : Lot) : Ordering :=
  (Ord.compare a.consumptionClass.rank b.consumptionClass.rank).then <|
  (Ord.compare a.expiresAt.isNone.toNat b.expiresAt.isNone.toNat).then <|
  (Ord.compare (a.expiresAt.getD 0) (b.expiresAt.getD 0)).then <|
  (Ord.compare a.createdAt b.createdAt).then <|
  Ord.compare a.ref b.ref

/-- `a` comes no later than `b`. -/
def Lot.before (a b : Lot) : Prop := (a.compare b).isLE = true

instance : DecidableRel Lot.before := fun a b =>
  inferInstanceAs (Decidable ((a.compare b).isLE = true))

/-- `eligibleLots` in their order, each with what it has left. -/
def Tables.eligibleLots (t : Tables) (c : Circumstance) (admission : Option Admission)
    (org : String) : List (String × ℕ) :=
  ((t.lots.filter fun l =>
    decide (l.org = org) && t.lotPredicate c admission l && decide (0 < t.remaining l)).insertionSort
      Lot.before).map fun l => (l.ref, (t.remaining l).toNat)

/-- The hold rows of a reference in the order of their lots, each with its amount. -/
def Tables.heldRows (t : Tables) (org ref : String) : List (String × ℕ) :=
  ((t.allocations.filterMap fun a =>
    if a.org = org ∧ a.debitType = .hold ∧ a.debitRef = ref then
      (t.lot a.org a.lotRef).map fun l => (l, a.amountMicros)
    else none).insertionSort fun a b => a.1.before b.1).map fun row => (row.1.ref, row.2)

/-! ### Taking an amount out of ordered rows -/

/-- An amount taken out of one row that had `previous`. -/
structure Pick where
  lotRef : String
  amount : ℕ
  previous : ℕ

/-- The loop over ordered rows that takes what each has until nothing remains: what it takes,
and what remains. -/
def draw : ℕ → List (String × ℕ) → List Pick × ℕ
  | remaining, [] => ([], remaining)
  | remaining, (lotRef, previous) :: rows =>
      let amount := min remaining previous
      let picked := if 0 < amount then [⟨lotRef, amount, previous⟩] else []
      if remaining - amount = 0 then (picked, 0)
      else
        let result := draw (remaining - amount) rows
        (picked ++ result.1, result.2)

theorem sum_picked (lotRef : String) (amount previous : ℕ) :
    ((if 0 < amount then [(⟨lotRef, amount, previous⟩ : Pick)] else []).map Pick.amount).sum =
      amount := by
  split
  · simp
  · simp only [List.map_nil, List.sum_nil]
    omega

/-- What is taken and what remains add up to the amount. -/
theorem draw_total (remaining : ℕ) (rows : List (String × ℕ)) :
    ((draw remaining rows).1.map Pick.amount).sum + (draw remaining rows).2 = remaining := by
  induction rows generalizing remaining with
  | nil => simp [draw]
  | cons row rows ih =>
    obtain ⟨_, previous⟩ := row
    simp only [draw]
    split
    · next =>
      rw [sum_picked]
      omega
    · have := ih (remaining - min remaining previous)
      rw [List.map_append, List.sum_append, sum_picked]
      omega

/-- Every amount taken is some of a row. -/
theorem draw_mem {remaining : ℕ} {rows : List (String × ℕ)} {p : Pick}
    (hp : p ∈ (draw remaining rows).1) :
    (p.lotRef, p.previous) ∈ rows ∧ 0 < p.amount ∧ p.amount ≤ p.previous := by
  induction rows generalizing remaining with
  | nil => simp [draw] at hp
  | cons row rows ih =>
    obtain ⟨lotRef, previous⟩ := row
    have hpicked : ∀ amount, amount ≤ previous →
        p ∈ (if 0 < amount then [(⟨lotRef, amount, previous⟩ : Pick)] else []) →
        p.lotRef = lotRef ∧ p.previous = previous ∧ 0 < p.amount ∧ p.amount ≤ p.previous := by
      intro amount hle hmem
      split at hmem
      · next hpos =>
        obtain rfl := List.mem_singleton.mp hmem
        exact ⟨rfl, rfl, hpos, hle⟩
      · simp at hmem
    have hle : min remaining previous ≤ previous := Nat.min_le_right ..
    simp only [draw] at hp
    split at hp
    · obtain ⟨hl, hr, hpos, hpl⟩ := hpicked _ hle hp
      exact ⟨by simp [hl, hr], hpos, hpl⟩
    · rcases List.mem_append.mp hp with hp | hp
      · obtain ⟨hl, hr, hpos, hpl⟩ := hpicked _ hle hp
        exact ⟨by simp [hl, hr], hpos, hpl⟩
      · obtain ⟨hmem, hpos, hpl⟩ := ih hp
        exact ⟨List.mem_cons_of_mem _ hmem, hpos, hpl⟩

/-- The loop takes each row at most once, in order. -/
theorem draw_lotRefs (remaining : ℕ) (rows : List (String × ℕ)) :
    ((draw remaining rows).1.map Pick.lotRef).Sublist (rows.map Prod.fst) := by
  induction rows generalizing remaining with
  | nil => simp [draw]
  | cons row rows ih =>
    obtain ⟨lotRef, previous⟩ := row
    have hpicked : ∀ amount : ℕ,
        ((if 0 < amount then [(⟨lotRef, amount, previous⟩ : Pick)] else []).map Pick.lotRef).Sublist
          [lotRef] := by
      intro amount
      split <;> simp
    simp only [draw]
    split
    · exact (hpicked _).trans (List.singleton_sublist.mpr List.mem_cons_self)
    · rw [List.map_append]
      exact (hpicked _).append (ih _)

/-- Amounts taken out of rows that add up to a given amount. -/
structure Selection (amount : ℕ) where
  picks : List Pick
  total : (picks.map Pick.amount).sum = amount

/-- The whole amount, where the rows have it. -/
def select (amount : ℕ) (rows : List (String × ℕ)) : Option (Selection amount) :=
  if h : (draw amount rows).2 = 0 then
    some ⟨(draw amount rows).1, by
      have := draw_total amount rows
      omega⟩
  else none

theorem select_some {amount : ℕ} {rows : List (String × ℕ)} {s : Selection amount}
    (h : select amount rows = some s) : s.picks = (draw amount rows).1 := by
  unfold select at h
  split at h
  · rw [← Option.some.inj h]
  · cases h

/-! ### Funding -/

/-- What `fund` is asked. -/
structure FundCall where
  org : String
  fundingRef : String
  amountMicros : ℕ
  kind : LotKind := .direct
  consumptionClass : ConsumptionClass
  expiresAt : Option Instant := none

/-- The checks of `fund`'s arguments. -/
def FundCall.valid (f : FundCall) : Bool :=
  decide (0 < f.amountMicros ∧ (f.amountMicros : ℤ) ≤ maxSafeInteger) &&
    !(f.kind = .planIncluded && f.consumptionClass = .purchased) &&
    !(f.kind = .purchased && f.consumptionClass ≠ .purchased)

/-- The lot is the one this call would insert. -/
def FundCall.lotMatches (f : FundCall) (l : Lot) : Bool :=
  decide (l.kind = f.kind ∧ l.consumptionClass = f.consumptionClass ∧
    l.amountMicros = f.amountMicros ∧ l.expiresAt = f.expiresAt)

/-- The entry is the one this call would insert. -/
def FundCall.entryMatches (f : FundCall) (e : Entry) : Bool :=
  decide (e.settledDeltaMicros = f.amountMicros ∧ e.heldDeltaMicros = 0)

/-- What a lot counts for in `settled`: what is not spent of it while it is current, and
what is held of it when it is not. -/
def Tables.settledOf (t : Tables) (c : Circumstance) (l : Lot) : ℤ :=
  if c.current l && !c.excludes l then
    l.amountMicros - t.allocatedFrom [.capture, .usageDebit] l.org l.ref -
      t.refundSum Refund.debitMicros l.org l.ref
  else t.allocatedFrom [.hold] l.org l.ref

/-- `settled` of an organization. -/
def Tables.settledBalance (t : Tables) (c : Circumstance) (org : String) : ℤ :=
  Table.sumIf (fun l => l.org = org) (t.settledOf c) t.lots

/-- The balance check `fund` makes in its batch. -/
def Tables.balanced (t : Tables) (c : Circumstance) (org : String) : Bool :=
  let settled := t.settledBalance c org
  let held := t.heldBalance org
  decide (0 ≤ settled ∧ settled ≤ maxSafeInteger ∧ 0 ≤ held ∧ held ≤ maxSafeInteger ∧
    0 ≤ settled - held ∧ settled - held ≤ maxSafeInteger ∧ (t.allocatedHeld org : ℤ) = held)

/-- The batch of `fund`. -/
def FundCall.batch (f : FundCall) (c : Circumstance) (t : Tables) : Option Tables := do
  let t ← t.guard !(f.consumptionClass = .free && c.paidFreeBlocked)
  let t := t.insertLotOrIgnore
    ⟨f.org, f.fundingRef, f.kind, f.consumptionClass, f.amountMicros, f.expiresAt, c.now⟩
  let t := t.insertEntryOrIgnore ⟨f.org, .funding, f.fundingRef, f.amountMicros, 0⟩
  t.guard <| t.balanced c f.org && (t.lot f.org f.fundingRef).any f.lotMatches &&
    (t.entry f.org .funding f.fundingRef).any f.entryMatches

/-! ### Debits -/

/-- `hold` and `debitUsage`, and the debit of one organization that `rollUp` makes. -/
inductive DebitKind where
  | hold
  | usage
  | rollUp
  deriving DecidableEq

/-- What a debit is asked. -/
structure DebitCall where
  org : String
  kind : DebitKind
  reference : String
  amountMicros : ℕ
  admission : Option Admission := none

namespace DebitCall

variable (d : DebitCall)

/-- The debit type of the call. -/
def type : DebitType := if d.kind = .hold then .hold else .usageDebit

/-- The entry type of the call. -/
def entryType : EntryType := if d.kind = .hold then .hold else .usageDebit

/-- The ledger entry of the debit. -/
def entry : Entry :=
  if d.kind = .hold then ⟨d.org, .hold, d.reference, 0, d.amountMicros⟩
  else ⟨d.org, .usageDebit, d.reference, -d.amountMicros, 0⟩

/-- The allocation a pick plans. -/
def allocation (p : Pick) : Allocation := ⟨d.org, d.type, d.reference, p.lotRef, p.amount⟩

/-- The first guard of `rollUp`, as far as it reads the wallet: its reference is unused. -/
def unused (t : Tables) : Bool :=
  (t.entry d.org .usageDebit d.reference).isNone &&
    !t.allocations.any fun a =>
      a.org = d.org ∧ a.debitType = .usageDebit ∧ a.debitRef = d.reference

/-- The `INSERT OR IGNORE` statements of a plan, one after the other. -/
def allocate (c : Circumstance) (picks : List Pick) (t : Tables) : Tables :=
  picks.foldl
    (fun t p => t.insertAllocationIfCovered (t.lotPredicate c d.admission) (d.allocation p)) t

/-- The batch of `prepareLedgerAllocation`; `now` is the plan's. -/
def batch (picks : List Pick) (now : Instant) (c : Circumstance) (t : Tables) : Option Tables := do
  let t ← t.guard <| !c.vetoed && (d.kind ≠ .rollUp || d.unused t)
  let t ← t.guard (t.receivableClear d.org)
  let t := d.allocate { c with now := now } picks t
  let t ← t.guard (t.allocatedBy d.org d.type d.reference = d.amountMicros)
  return t.insertEntryOrIgnore d.entry

end DebitCall

/-! ### Settlements -/

/-- `capture` and `release`. -/
inductive SettleType where
  | capture
  | release
  deriving DecidableEq

/-- What a settlement is asked. -/
structure SettleCall where
  org : String
  type : SettleType
  reference : String
  amountMicros : ℕ

/-- What a settlement has decided to write. -/
structure SettlePlan (amount : ℕ) where
  remainingHold : ℤ
  capturedBefore : ℕ
  selection : Selection amount

namespace SettleCall

variable (s : SettleCall)

/-- The ledger entry of the settlement. -/
def entry : Entry :=
  match s.type with
  | .capture => ⟨s.org, .capture, s.reference, -s.amountMicros, -s.amountMicros⟩
  | .release => ⟨s.org, .release, s.reference, 0, -s.amountMicros⟩

/-- The statement that takes a pick out of its hold row. -/
def shrink (p : Pick) (t : Tables) : Tables :=
  if p.amount = p.previous then t.deleteHold s.org s.reference p.lotRef p.previous
  else t.updateHold s.org s.reference p.lotRef p.previous (p.previous - p.amount)

/-- The statements of one pick. -/
def move (p : Pick) (t : Tables) : Option Tables :=
  match s.type with
  | .release => some (s.shrink p t)
  | .capture =>
      (s.shrink p t).insertAllocation ⟨s.org, .capture, s.reference, p.lotRef, p.amount⟩

/-- `moveStatements`. -/
def moves : List Pick → Tables → Option Tables
  | [], t => some t
  | p :: picks, t => (s.move p t).bind (moves picks)

/-- The guard after the moves. -/
def settled (plan : SettlePlan s.amountMicros) (t : Tables) : Bool :=
  decide ((t.allocatedBy s.org .hold s.reference : ℤ) = plan.remainingHold - s.amountMicros ∧
    t.allocatedBy s.org .capture s.reference =
      plan.capturedBefore + if s.type = .capture then s.amountMicros else 0)

/-- The batch of `planHoldSettlement`. -/
def batch (plan : SettlePlan s.amountMicros) (c : Circumstance) (t : Tables) : Option Tables := do
  let t ← t.guard <| !c.vetoed && !(s.type = .capture && t.holdFenced s.org s.reference)
  let t ← s.moves plan.selection.picks t
  let t ← t.guard (s.settled plan t)
  t.insertEntry s.entry

end SettleCall

/-! ### Refunds -/

/-- A refund of a grant's funding, with the grant it is of. -/
structure RefundCall where
  refundId : String
  org : String
  fundingRef : String
  /-- `grant.amountMicros`. -/
  grantMicros : ℕ
  /-- `grant.considerationMicros`. -/
  considerationMicros : ℕ
  amountMicros : ℕ
  cumulativeRefundedMicros : ℕ
  fenceGeneration : ℕ
  releaseFreeze : Bool := true

/-- What `priorRows` sums up. -/
structure PriorRefunds where
  refunded : ℕ
  target : ℕ
  debited : ℕ
  expired : ℕ

/-- What a refund has decided to write. -/
structure RefundPlan where
  prior : PriorRefunds
  /-- Each reference with a hold on the lot, and what is held for it. -/
  closures : List (String × ℕ)
  spent : ℕ
  target : ℕ
  debit : ℕ
  receivable : ℕ
  expired : ℕ

namespace RefundCall

variable (r : RefundCall)

/-- `priorRows`. -/
def priorRefunds (t : Tables) : PriorRefunds :=
  { refunded := t.refundSum Refund.amountMicros r.org r.fundingRef
    target := t.refundTarget r.org r.fundingRef
    debited := t.refundSum Refund.debitMicros r.org r.fundingRef
    expired := t.refundSum Refund.expiredMicros r.org r.fundingRef }

/-- `heldRefs`. -/
def heldRefs (t : Tables) : List String :=
  ((t.allocations.filter fun a =>
    decide (a.org = r.org ∧ a.lotRef = r.fundingRef ∧ a.debitType = .hold)).map
      Allocation.debitRef).dedup

/-- How much of the grant the refunds revoke once this one is counted. -/
def target : ℕ :=
  if r.cumulativeRefundedMicros = r.considerationMicros then r.grantMicros
  else r.grantMicros * r.cumulativeRefundedMicros / r.considerationMicros

/-- The lot is the grant's: none for a grant of nothing, else one of its amount. -/
def lotMatches : Option Lot → Bool
  | none => decide (r.grantMicros = 0)
  | some l => decide (0 < r.grantMicros ∧ l.amountMicros = r.grantMicros)

/-- The plan, from the lot row and what was spent of it; `none` where a check refuses. -/
def plan (prior : PriorRefunds) (closures : List (String × ℕ)) (lot : Option Lot) (spent : ℕ)
    (now : Instant) : Option RefundPlan :=
  if !r.lotMatches lot || r.target < prior.target ||
      r.grantMicros < spent + prior.debited + prior.expired then none
  else
    let delta := r.target - prior.target
    let unused := min delta (r.grantMicros - spent - prior.debited - prior.expired)
    let expired := match lot.bind Lot.expiresAt with
      | some expiresAt => if expiresAt ≤ now then unused else 0
      | none => 0
    some
      { prior := prior
        closures := closures
        spent := spent
        target := r.target
        debit := unused - expired
        receivable := delta - unused
        expired := expired }

/-- The first guard: the fence still stands and no other refund came between. -/
def fenceHolds (plan : RefundPlan) (t : Tables) : Bool :=
  (t.fences.any fun f => f.org = r.org ∧ f.fundingRef = r.fundingRef ∧
    f.generation = r.fenceGeneration ∧ f.active) &&
    decide (t.refundSum Refund.amountMicros r.org r.fundingRef = plan.prior.refunded ∧
      t.refundTarget r.org r.fundingRef = plan.prior.target)

/-- The hold of a reference is released as a whole. -/
def closeHold (closure : String × ℕ) (t : Tables) : Option Tables := do
  let t ← t.guard <| decide (t.allocatedBy r.org .hold closure.1 = closure.2 ∧
    t.heldOf r.org closure.1 = closure.2)
  (t.deleteHolds r.org closure.1).insertEntry ⟨r.org, .release, closure.1, 0, -closure.2⟩

/-- `closures`. -/
def closeHolds : List (String × ℕ) → Tables → Option Tables
  | [], t => some t
  | closure :: closures, t => (r.closeHold closure t).bind (closeHolds closures)

/-- The guard after the closures: no hold is left on the lot, and nothing more was spent. -/
def consistent (plan : RefundPlan) (t : Tables) : Bool :=
  (!t.allocations.any fun a =>
    a.org = r.org ∧ a.lotRef = r.fundingRef ∧ a.debitType = .hold) &&
    decide (t.allocatedFrom [.capture, .usageDebit] r.org r.fundingRef = plan.spent)

/-- The batch of `refund`. -/
def batch (plan : RefundPlan) (c : Circumstance) (t : Tables) : Option Tables := do
  let t ← t.guard <| !c.vetoed && r.fenceHolds plan t
  let t ← r.closeHolds plan.closures t
  let t ← t.guard (r.consistent plan t)
  let t ← t.insertRefund
    { id := r.refundId, org := r.org, fundingRef := r.fundingRef, amountMicros := r.amountMicros,
      targetRevokedMicros := plan.target, debitMicros := plan.debit,
      receivableMicros := plan.receivable, expiredMicros := plan.expired }
  return if r.releaseFreeze then t.clearFence r.org r.fundingRef r.fenceGeneration else t

end RefundCall

/-! ### The wallet's figures -/

/-- What `wallet()` reads. -/
structure Totals where
  settled : ℤ
  held : ℤ
  allocatedHeld : ℤ
  receivable : ℤ
  frozen : ℤ

/-- What may be spent. -/
def Totals.available (w : Totals) : ℤ := w.settled - w.held - w.frozen

/-- `wallet()` represents every figure exactly. -/
def Totals.safe (w : Totals) : Bool :=
  Wallet.safe w.settled && Wallet.safe w.held && Wallet.safe w.allocatedHeld &&
    Wallet.safe w.receivable && Wallet.safe w.frozen && Wallet.safe w.available

/-- The conservation check of `wallet()`. -/
def Totals.conserved (w : Totals) : Bool :=
  w.safe && decide (0 ≤ w.settled ∧ 0 ≤ w.held ∧ 0 ≤ w.available ∧ 0 ≤ w.frozen ∧
    0 ≤ w.receivable ∧ w.allocatedHeld = w.held)

/-- The query of `wallet()`. -/
def Tables.totals (t : Tables) (c : Circumstance) (org : String) : Totals :=
  { settled := t.settledBalance c org
    held := t.heldBalance org
    allocatedHeld := t.allocatedHeld org
    receivable := (Table.sumIf (fun r => r.org = org) Refund.receivableMicros t.refunds : ℕ)
    frozen := Table.sumIf (fun l => decide (l.org = org) && t.fenced l.org l.ref && c.current l)
      (fun l => max 0 (t.remaining l)) t.lots }

end Takoserver.Wallet
