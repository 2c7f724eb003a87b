import Takoserver.Lib.Machine
import Takoserver.Wallet.Plans

/-!
# Clients

The calls of the wallet, one statement at a time, and the machine of all their
interleavings.  A call plans from rows it reads in separate queries and then
commits one batch; between any two of its statements any number of other calls
move.  A hold whose batch is refused looks its reference up again, and a funding
reads back what it committed.
-/

namespace Takoserver.Wallet

/-- What a call throws. -/
inductive ErrorCode where
  | invalidAmount
  | conservationViolated
  | insufficientFunds
  | sqlError
  | refundRefused
  deriving DecidableEq

/-- How a call ends: it returns, returns `false`, returns the wallet without crediting a free
funding that is blocked, or throws. -/
inductive Reply where
  | ok
  | declined
  | blocked
  | thrown (code : ErrorCode)
  deriving DecidableEq

/-- The call did not do what it was called for. -/
def Reply.failed : Reply → Bool
  | .declined | .thrown _ => true
  | .ok | .blocked => false

/-- The calls of the wallet. -/
inductive Call where
  | fund (f : FundCall)
  | debit (d : DebitCall)
  | settle (s : SettleCall)
  | refund (r : RefundCall)

/-! ### Where a call stands -/

/-- Where `fund` stands. -/
inductive FundStage where
  | priorLot
  | priorFunding (lot : Option Lot)
  | committing
  /-- The batch was refused; is free credit blocked? -/
  | asking
  | recheckLot
  | recheckFunding (lot : Option Lot)
  | readLot
  | readFunding
  /-- `wallet()`. -/
  | reporting (credited : Bool)

/-- Where `debit` stands. -/
inductive DebitStage (amount : ℕ) where
  | existing
  | receivable
  | lots
  | committing (selection : Selection amount) (now : Instant)
  | replay (now : Instant)
  | available (now : Instant)

/-- Where `settle` stands. -/
inductive SettleStage (amount : ℕ) where
  | existing
  | balance
  | rows (remainingHold : ℤ)
  | captured (remainingHold : ℤ) (heldRows : List (String × ℕ))
  | fence (remainingHold : ℤ) (heldRows : List (String × ℕ)) (capturedBefore : ℕ)
  | committing (plan : SettlePlan amount)

/-- Where `refund` stands. -/
inductive RefundStage where
  | prior
  | heldRefs (prior : PriorRefunds)
  | totals (prior : PriorRefunds) (closures : List (String × ℕ)) (heldRefs : List String)
  | committing (plan : RefundPlan)
  | receipt

/-- Where a call stands, with what it has read so far. -/
inductive Client where
  | idle
  | funding (f : FundCall) (stage : FundStage)
  | debiting (d : DebitCall) (stage : DebitStage d.amountMicros)
  | settling (s : SettleCall) (stage : SettleStage s.amountMicros)
  | refunding (r : RefundCall) (stage : RefundStage)
  | finished (call : Call) (reply : Reply)

/-- How a call that has ended did end. -/
def Client.reply : Client → Option Reply
  | .finished _ reply => some reply
  | _ => none

/-- A call before its first statement; `positiveAmount` and the checks of its arguments. -/
def Call.start : Call → Client
  | .fund f =>
      if f.valid then .funding f .priorLot else .finished (.fund f) (.thrown .invalidAmount)
  | .debit d =>
      if 0 < d.amountMicros ∧ (d.amountMicros : ℤ) ≤ maxSafeInteger then
        -- a roll-up draws a new reference and looks nothing up
        .debiting d (if d.kind = .rollUp then .receivable else .existing)
      else .finished (.debit d) (.thrown .invalidAmount)
  | .settle s =>
      if 0 < s.amountMicros ∧ (s.amountMicros : ℤ) ≤ maxSafeInteger then .settling s .existing
      else .finished (.settle s) (.thrown .invalidAmount)
  | .refund r =>
      if 0 < r.amountMicros ∧ 0 < r.cumulativeRefundedMicros ∧
          r.cumulativeRefundedMicros ≤ r.considerationMicros then .refunding r .prior
      else .finished (.refund r) (.thrown .refundRefused)

/-! ### The next statement -/

/-- What `fund` found under its reference agrees with the call, or there is nothing. -/
def FundCall.agrees (f : FundCall) : Option Lot → Option Entry → Bool
  | none, none => true
  | some l, some e => f.lotMatches l && f.entryMatches e
  | _, _ => false

/-- The next statement of `fund`. -/
def FundCall.step (f : FundCall) (t : Tables) (c : Circumstance) : FundStage → Client × Tables
  | .priorLot => (.funding f (.priorFunding (t.lot f.org f.fundingRef)), t)
  | .priorFunding lot =>
      if f.agrees lot (t.entry f.org .funding f.fundingRef) then (.funding f .committing, t)
      else (.finished (.fund f) (.thrown .conservationViolated), t)
  | .committing =>
      match f.batch c t with
      | some t' => (.funding f .readLot, t')
      | none =>
        if f.consumptionClass = .free then (.funding f .asking, t)
        else (.finished (.fund f) (.thrown .sqlError), t)
  | .asking =>
      if c.paidFreeBlocked then (.funding f .recheckLot, t)
      else (.finished (.fund f) (.thrown .sqlError), t)
  | .recheckLot => (.funding f (.recheckFunding (t.lot f.org f.fundingRef)), t)
  | .recheckFunding lot =>
      if f.agrees lot (t.entry f.org .funding f.fundingRef) then (.funding f (.reporting false), t)
      else (.finished (.fund f) (.thrown .conservationViolated), t)
  | .readLot =>
      if (t.lot f.org f.fundingRef).any f.lotMatches then (.funding f .readFunding, t)
      else (.finished (.fund f) (.thrown .conservationViolated), t)
  | .readFunding =>
      if (t.entry f.org .funding f.fundingRef).any f.entryMatches then
        (.funding f (.reporting true), t)
      else (.finished (.fund f) (.thrown .conservationViolated), t)
  | .reporting credited =>
      if (t.totals c f.org).conserved then
        (.finished (.fund f) (if credited then .ok else .blocked), t)
      else (.finished (.fund f) (.thrown .conservationViolated), t)

/-- The end of a debit for want of funds: `hold` and `debitUsage` return `false`. -/
def DebitCall.insufficient (d : DebitCall) : Client :=
  .finished (.debit d) (if d.kind = .rollUp then .thrown .insufficientFunds else .declined)

/-- `availableAt`. -/
def DebitCall.availableAt (d : DebitCall) (t : Tables) (c : Circumstance) : ℤ :=
  Table.sumIf (fun l => decide (l.org = d.org) && t.lotPredicate c d.admission l) t.remaining t.lots

/-- The next statement of `debit`. -/
def DebitCall.step (d : DebitCall) (t : Tables) (c : Circumstance) :
    DebitStage d.amountMicros → Client × Tables
  | .existing =>
      match t.entry d.org d.entryType d.reference with
      | some e =>
        if e.settledDeltaMicros = d.entry.settledDeltaMicros ∧
            e.heldDeltaMicros = d.entry.heldDeltaMicros then (.finished (.debit d) .ok, t)
        else (.finished (.debit d)
          (if d.kind = .hold then .thrown .conservationViolated else .declined), t)
      | none =>
        -- `allocationAdmissionResolver`
        if c.refused then (.finished (.debit d) (.thrown .sqlError), t)
        else (.debiting d .receivable, t)
  | .receivable =>
      if t.receivableClear d.org then (.debiting d .lots, t) else (d.insufficient, t)
  | .lots =>
      match select d.amountMicros (t.eligibleLots c d.admission d.org) with
      | some selection => (.debiting d (.committing selection c.now), t)
      | none => (d.insufficient, t)
  | .committing selection now =>
      match d.batch selection.picks now c t with
      | some t' => (.finished (.debit d) .ok, t')
      | none =>
        if d.kind = .hold then (.debiting d (.replay now), t)
        else (.finished (.debit d) (.thrown .sqlError), t)
  | .replay now =>
      if (t.entry d.org .hold d.reference).any
          fun e => e.heldDeltaMicros = (d.amountMicros : ℤ) then
        (.finished (.debit d) .ok, t)
      else (.debiting d (.available now), t)
  | .available now =>
      if d.availableAt t { c with now := now } < d.amountMicros then (d.insufficient, t)
      else (.finished (.debit d) (.thrown .sqlError), t)

/-- The end of `planHoldSettlement`'s checks, once every row is read. -/
def SettleCall.plan (s : SettleCall) (remainingHold : ℤ) (heldRows : List (String × ℕ))
    (capturedBefore : ℕ) : Option (SettlePlan s.amountMicros) :=
  if (((heldRows.map Prod.snd).sum : ℕ) : ℤ) ≠ remainingHold ∨
      (s.type = .release ∧ remainingHold ≠ s.amountMicros) then none
  else (select s.amountMicros heldRows).map fun selection =>
    ⟨remainingHold, capturedBefore, selection⟩

/-- A settlement goes on with its plan, or is refused. -/
def SettleCall.commits (s : SettleCall) : Option (SettlePlan s.amountMicros) → Client
  | some plan => .settling s (.committing plan)
  | none => .finished (.settle s) (.thrown .conservationViolated)

/-- The next statement of `settle`. -/
def SettleCall.step (s : SettleCall) (t : Tables) (c : Circumstance) :
    SettleStage s.amountMicros → Client × Tables
  | .existing =>
      match t.entry s.org s.entry.type s.reference with
      | some e =>
        if e.settledDeltaMicros = s.entry.settledDeltaMicros ∧
            e.heldDeltaMicros = s.entry.heldDeltaMicros then (.finished (.settle s) .ok, t)
        else (.finished (.settle s) (.thrown .conservationViolated), t)
      | none => (.settling s .balance, t)
  | .balance => (.settling s (.rows (t.heldOf s.org s.reference)), t)
  | .rows remainingHold =>
      (.settling s (.captured remainingHold (t.heldRows s.org s.reference)), t)
  | .captured remainingHold heldRows =>
      let capturedBefore := t.allocatedBy s.org .capture s.reference
      if !safe remainingHold || !safe (heldRows.map Prod.snd).sum || !safe capturedBefore ||
          decide (remainingHold < s.amountMicros) then
        (.finished (.settle s) (.thrown .conservationViolated), t)
      else
        match s.type with
        | .capture => (.settling s (.fence remainingHold heldRows capturedBefore), t)
        | .release => (s.commits (s.plan remainingHold heldRows capturedBefore), t)
  | .fence remainingHold heldRows capturedBefore =>
      if t.holdFenced s.org s.reference then
        (.finished (.settle s) (.thrown .conservationViolated), t)
      else (s.commits (s.plan remainingHold heldRows capturedBefore), t)
  | .committing plan =>
      match s.batch plan c t with
      | some t' => (.finished (.settle s) .ok, t')
      | none => (.finished (.settle s) (.thrown .sqlError), t)

/-- The refund is refused. -/
def RefundCall.refuse (r : RefundCall) : Client :=
  .finished (.refund r) (.thrown .refundRefused)

/-- The next statement of `refund`. -/
def RefundCall.step (r : RefundCall) (t : Tables) (c : Circumstance) :
    RefundStage → Client × Tables
  | .prior =>
      let prior := r.priorRefunds t
      if c.refused ∨ prior.refunded + r.amountMicros ≠ r.cumulativeRefundedMicros then (r.refuse, t)
      else (.refunding r (.heldRefs prior), t)
  | .heldRefs prior => (.refunding r (.totals prior [] (r.heldRefs t)), t)
  | .totals prior closures (ref :: refs) =>
      let allocated := t.allocatedBy r.org .hold ref
      if !c.refused && decide (0 < t.heldOf r.org ref ∧ t.heldOf r.org ref = allocated) then
        (.refunding r (.totals prior (closures ++ [(ref, allocated)]) refs), t)
      else (r.refuse, t)
  | .totals prior closures [] =>
      match r.plan prior closures (t.lot r.org r.fundingRef)
          (t.allocatedFrom [.capture, .usageDebit] r.org r.fundingRef) c.now with
      | some plan => (.refunding r (.committing plan), t)
      | none => (r.refuse, t)
  | .committing plan =>
      match r.batch plan c t with
      | some t' => (.finished (.refund r) .ok, t')
      | none => (.refunding r .receipt, t)
  | .receipt =>
      if t.refunds.any fun row => row.id = r.refundId ∧ row.org = r.org ∧
          row.fundingRef = r.fundingRef ∧ row.amountMicros = r.amountMicros then
        (.finished (.refund r) .ok, t)
      else (.finished (.refund r) (.thrown .sqlError), t)

/-- The next statement of a call, and the tables it leaves. -/
def Client.step (t : Tables) (c : Circumstance) : Client → Client × Tables
  | .idle => (.idle, t)
  | .funding f stage => f.step t c stage
  | .debiting d stage => d.step t c stage
  | .settling s stage => s.step t c stage
  | .refunding r stage => r.step t c stage
  | .finished call reply => (.finished call reply, t)

/-! ### Any number of clients -/

/-- The tables, where each client stands, and how often the call it makes has changed the
ledger, the lots or the allocations. -/
structure System where
  db : Tables := {}
  client : ℕ → Client := fun _ => .idle
  changes : ℕ → ℕ := fun _ => 0

/-- One move of a client. -/
inductive WalletAction where
  /-- A client makes its next call. -/
  | call (i : ℕ) (call : Call)
  /-- The next statement of a client's call. -/
  | step (i : ℕ) (c : Circumstance)
  /-- A client's process stops. -/
  | crash (i : ℕ)
  /-- A fence is raised, moved or lowered. -/
  | fence (f : Fence)

/-- Ledger, lots and allocations are the same. -/
def Tables.sameMoney (t t' : Tables) : Bool :=
  decide (t'.ledger = t.ledger ∧ t'.lots = t.lots ∧ t'.allocations = t.allocations)

/-- The machine of all interleavings of the wallet's calls. -/
def wallets : Machine System WalletAction where
  init := {}
  next s
    | .call i call =>
        some { s with
          client := Function.update s.client i call.start
          changes := Function.update s.changes i 0 }
    | .step i c =>
        let result := (s.client i).step s.db c
        some
          { db := result.2
            client := Function.update s.client i result.1
            changes := Function.update s.changes i
              (if s.db.sameMoney result.2 then s.changes i else s.changes i + 1) }
    | .crash i => some { s with client := Function.update s.client i .idle }
    | .fence f => some { s with db := s.db.setFence f }

end Takoserver.Wallet
