import Takoserver.Wallet.Settlement
import Takoserver.Org.Books
import Takoserver.Org.Clients

/-!
# What a committed batch of the billing did

One lemma for each batch: its guards held, and these are the tables it left.  The
statements a client's step may commit are `Writes`, one constructor for each kind of
batch, and every invariant is a case analysis on it.
-/

namespace Takoserver.Org

open Wallet (Instant Admission Pick Selection SameBooks)

variable {t t' : Tables} {c : Circumstance}

/-! ### Statements -/

theorem Tables.lift_some {f : Wallet.Tables → Option Wallet.Tables} (h : t.lift f = some t') :
    ∃ m, f t.money = some m ∧ t' = { t with money := m } := by
  unfold Tables.lift at h
  rw [Option.map_eq_some_iff] at h
  obtain ⟨m, hm, rfl⟩ := h
  exact ⟨m, hm, rfl⟩

theorem Tables.insertHold_some {h : Hold} (hi : t.insertHold h = some t') :
    t.held h.org h.ref = none ∧ t' = { t with holds := t.holds ++ [h] } := by
  unfold Tables.insertHold at hi
  split at hi
  · cases hi
  · next hn => exact ⟨by simpa using hn, (Option.some.inj hi).symm⟩

variable {u : UsageRecord} {ref : String} {g : Grant} {P : Client → Prop}

theorem Tables.insertUsage_some (hi : t.insertUsage u = some t') :
    t.usageRow u.org u.ref = none ∧ t' = { t with usage := t.usage ++ [u] } := by
  unfold Tables.insertUsage at hi
  split at hi
  · cases hi
  · next hn => exact ⟨by simpa using hn, (Option.some.inj hi).symm⟩

theorem Tables.usageRow_some {org : String} (hu : t.usageRow org ref = some u) :
    u ∈ t.usage ∧ u.org = org ∧ u.ref = ref := by
  obtain ⟨hmem, hk⟩ := Table.find_some hu
  exact ⟨hmem, UsageRecord.key_eq.mp hk⟩

theorem Tables.tariffAt_mem {instant : Instant} {x : Tariff} (h : t.tariffAt instant = some x) :
    x ∈ t.tariffs := by
  have key : ∀ {f : Option Tariff → Tariff → Option Tariff},
      (∀ best y, f best y = some y ∨ f best y = best) → ∀ (xs : List Tariff) (best : Option Tariff),
      (∀ b ∈ best, b ∈ t.tariffs) → (∀ y ∈ xs, y ∈ t.tariffs) →
      ∀ b ∈ xs.foldl f best, b ∈ t.tariffs := by
    intro f hf xs
    induction xs with
    | nil => intro best hbest _ b hb; exact hbest b hb
    | cons y ys ih =>
      intro best hbest hxs
      refine ih _ (fun b hb => ?_) fun z hz => hxs z (List.mem_cons_of_mem _ hz)
      rcases hf best y with heq | heq <;> rw [heq] at hb
      · cases Option.mem_some_iff.mp hb
        exact hxs y List.mem_cons_self
      · exact hbest b hb
  refine key (fun best y => ?_) _ none (fun b hb => by cases hb)
    (fun y hy => List.mem_of_mem_filter hy) x h
  cases best with
  | none => exact Or.inl rfl
  | some b =>
    dsimp only
    split
    · exact Or.inl rfl
    · exact Or.inr rfl

/-! ### Holds -/

theorem HoldInput.batch_cases {x : HoldInput} {plan : HoldPlan x.amountMicros}
    (h : x.batch plan c t = some t') :
    t.held x.org x.reference = none ∧ t.pendingUsage x.org = false ∧
      t.money.receivableClear x.org = true ∧
      HoldInput.unsettled t.money x.org (holdRef x.reference) = true ∧
      ∃ m, t' = { t with money := m, holds := t.holds ++ [x.row plan.instant plan.expiresAt] } ∧
        (x.amountMicros = 0 → m = t.money) ∧
        (x.amountMicros ≠ 0 → (x.debit plan.admission).batch plan.selection.picks plan.instant
          c.toCircumstance t.money = some m) := by
  unfold HoldInput.batch at h
  simp only [Option.bind_eq_bind, Option.bind_eq_some_iff] at h
  obtain ⟨t₁, h₁, _, h₂, _, h₃, h⟩ := h
  obtain ⟨rfl, -⟩ := Table.guard_some h₁
  obtain ⟨hfree, rfl⟩ := Tables.insertHold_some h₂
  obtain ⟨rfl, hv⟩ := Table.guard_some h₃
  simp only [Bool.and_eq_true, Bool.not_eq_true'] at hv
  refine ⟨hfree, hv.1.1, hv.1.2, hv.2, ?_⟩
  split at h
  · next hzero =>
    cases h
    exact ⟨t₁.money, rfl, fun _ => rfl, fun hne => absurd hzero hne⟩
  · next hpos =>
    obtain ⟨m, hm, rfl⟩ := Tables.lift_some h
    exact ⟨m, rfl, fun hz => absurd hz hpos, fun _ => hm⟩

namespace Closing

variable {x : Closing} {instant : Instant} {picks : List Pick} {m m' : Wallet.Tables}

/-- The allocation a pick of a close captures. -/
def taken (x : Closing) (p : Pick) : Wallet.Allocation :=
  ⟨x.row.org, .capture, x.row.ledgerRef, p.lotRef, p.amount⟩

/-- The ledger entries of a close. -/
def entries (x : Closing) : List Wallet.Entry :=
  (if 0 < x.captured then [⟨x.row.org, .capture, x.row.ledgerRef, -x.captured, -x.captured⟩] else []) ++
    if x.captured < x.row.amountMicros then
      [⟨x.row.org, .release, x.row.ledgerRef, 0, x.captured - x.row.amountMicros⟩] else []

theorem captures_cases (h : x.captures picks m = some m')
    (hn : (m.allocations.map Wallet.Allocation.key).Nodup) :
    m' = { m with allocations := m.allocations ++ picks.map x.taken } ∧
      (m'.allocations.map Wallet.Allocation.key).Nodup ∧
      ∀ p ∈ picks, (m.lot x.row.org p.lotRef).isSome := by
  induction picks generalizing m with
  | nil =>
    simp only [captures, Option.some.injEq] at h
    subst h
    exact ⟨by simp, hn, by simp⟩
  | cons _ _ ih =>
    simp only [captures, Option.bind_eq_some_iff] at h
    obtain ⟨_, h₁, h⟩ := h
    obtain ⟨hfree, hlot, -, rfl⟩ := Wallet.Tables.insertAllocation_some h₁
    obtain ⟨heq, hn', hlots⟩ := ih h (Table.nodup_insert hn hfree)
    refine ⟨?_, hn', ?_⟩
    · rw [heq]
      simp [taken]
    · intro q hq
      rcases List.mem_cons.mp hq with rfl | hq
      · exact hlot
      · exact hlots q hq

/-- What a close finds in the wallet, and what it leaves there. -/
theorem settle_cases (h : x.settle picks m = some m')
    (hn : (m.allocations.map Wallet.Allocation.key).Nodup) :
    (0 < x.captured → m.holdFenced x.row.org x.row.ledgerRef = false) ∧
      m.heldOf x.row.org x.row.ledgerRef = x.row.amountMicros ∧
      m.allocatedBy x.row.org .hold x.row.ledgerRef = x.row.amountMicros ∧
      m' = { m with
        ledger := m.ledger ++ x.entries
        allocations := (m.allocations ++ picks.map x.taken).filter fun a =>
          !decide (a.org = x.row.org ∧ a.debitType = .hold ∧ a.debitRef = x.row.ledgerRef) } ∧
      (m'.allocations.map Wallet.Allocation.key).Nodup := by
  unfold settle at h
  simp only [Option.bind_eq_bind, Option.bind_eq_some_iff] at h
  obtain ⟨_, h₁, m₂, h₂, _, h₃, m₄, h₄, h⟩ := h
  obtain ⟨rfl, hfence⟩ := Table.guard_some h₁
  obtain ⟨rfl, hholds⟩ := Table.guard_some h₂
  obtain ⟨rfl, hn₃, -⟩ := captures_cases h₃ hn
  simp only [holds, Bool.and_eq_true, decide_eq_true_eq] at hholds
  refine ⟨?_, hholds.1.1, hholds.1.2, ?_⟩
  · intro hpos
    simpa [hpos] using hfence
  -- the two conditional entries, each under a free key
  have h₄' : m₄ = { Wallet.Tables.deleteHolds { m₂ with
        allocations := m₂.allocations ++ picks.map x.taken } x.row.org x.row.ledgerRef with
      ledger := m₂.ledger ++ if 0 < x.captured then
        [⟨x.row.org, .capture, x.row.ledgerRef, -x.captured, -x.captured⟩] else [] } := by
    split at h₄
    · next hpos =>
      obtain ⟨-, rfl⟩ := Wallet.Tables.insertEntry_some h₄
      simp [hpos, Wallet.Tables.deleteHolds]
    · next hzero =>
      rw [← Option.some.inj h₄]
      simp [hzero, Wallet.Tables.deleteHolds]
  have hm' : m' = { m₄ with
      ledger := m₄.ledger ++ if x.captured < x.row.amountMicros then
        [⟨x.row.org, .release, x.row.ledgerRef, 0, x.captured - x.row.amountMicros⟩] else [] } := by
    split at h
    · next hlt =>
      obtain ⟨-, rfl⟩ := Wallet.Tables.insertEntry_some h
      simp [hlt]
    · next hge =>
      rw [← Option.some.inj h]
      simp [hge]
  subst h₄'
  subst hm'
  refine ⟨by simp [entries, Wallet.Tables.deleteHolds, List.append_assoc], ?_⟩
  exact hn₃.sublist (List.filter_sublist.map _)

/-- A close that committed: the hold was live and in time, the wallet had all of it, and it
is closed and settled. -/
theorem batch_cases (h : x.batch instant picks c t = some t')
    (hn : (t.money.allocations.map Wallet.Allocation.key).Nodup) :
    (∃ r ∈ t.holds, r.key = x.row.key ∧ r.state = .live ∧ x.inTime instant r = true) ∧
      (0 < x.captured → t.money.holdFenced x.row.org x.row.ledgerRef = false) ∧
      t.money.heldOf x.row.org x.row.ledgerRef = x.row.amountMicros ∧
      t.money.allocatedBy x.row.org .hold x.row.ledgerRef = x.row.amountMicros ∧
      t' = { t with
        holds := Table.update
          (fun r => decide (r.key = x.row.key ∧ r.state = .live) && x.inTime instant r)
          (x.closed instant) t.holds
        money := { t.money with
          ledger := t.money.ledger ++ x.entries
          allocations := (t.money.allocations ++ picks.map x.taken).filter fun a =>
            !decide (a.org = x.row.org ∧ a.debitType = .hold ∧ a.debitRef = x.row.ledgerRef) } } ∧
      (t'.money.allocations.map Wallet.Allocation.key).Nodup := by
  unfold batch at h
  simp only [Option.bind_eq_bind, Option.bind_eq_some_iff] at h
  obtain ⟨_, h₁, _, h₂, h⟩ := h
  obtain ⟨rfl, -⟩ := Table.guard_some h₁
  unfold Tables.closeHold at h₂
  split at h₂
  · next hany =>
    cases h₂
    obtain ⟨m, hm, rfl⟩ := Tables.lift_some h
    obtain ⟨hfence, hheld, halloc, hm', hnodup⟩ := settle_cases hm hn
    simp only [List.any_eq_true, Bool.and_eq_true, decide_eq_true_eq] at hany
    obtain ⟨r, hr, ⟨hk, hlive⟩, htime⟩ := hany
    exact ⟨⟨r, hr, hk, hlive, htime⟩, hfence, hheld, halloc, by rw [hm']; rfl, hnodup⟩
  · cases h₂

end Closing

/-! ### Usage -/

theorem UsageInput.batch_cases {x : UsageInput} (h : x.batch u c t = some t') :
    t.money.receivableClear x.org = true ∧ t.usageRow u.org u.ref = none ∧
      t' = { t with usage := t.usage ++ [u] } := by
  unfold UsageInput.batch at h
  simp only [Option.bind_eq_bind, Option.bind_eq_some_iff] at h
  obtain ⟨_, h₁, h⟩ := h
  obtain ⟨rfl, hv⟩ := Table.guard_some h₁
  simp only [Bool.and_eq_true] at hv
  obtain ⟨hfree, rfl⟩ := Tables.insertUsage_some h
  exact ⟨hv.2, hfree, rfl⟩

/-- The record, paid. -/
def UsageRecord.paid (instant : Instant) (u : UsageRecord) : UsageRecord :=
  { u with state := .paid, paidAt := some instant }

theorem UsageRecord.batch_cases {plan : PayPlan u.amountMicros} (h : u.batch plan c t = some t') :
    (∃ r ∈ t.usage, r.key = u.key ∧ r.state = .pending) ∧ t.money.receivableClear u.org = true ∧
      ∃ m, t' = { t with
          money := m
          usage := Table.update (fun r => r.key = u.key ∧ r.state = .pending)
            (UsageRecord.paid plan.instant) t.usage } ∧
        (u.amountMicros = 0 → m = t.money) ∧
        (u.amountMicros ≠ 0 → (u.debit plan.admission).batch plan.selection.picks plan.instant
          c.toCircumstance t.money = some m) := by
  unfold UsageRecord.batch at h
  simp only [Option.bind_eq_bind, Option.bind_eq_some_iff] at h
  obtain ⟨t₁, h₁, _, h₂, _, h₃, h⟩ := h
  obtain ⟨rfl, -⟩ := Table.guard_some h₁
  unfold Tables.payUsage at h₂
  split at h₂
  · next hany =>
    cases h₂
    obtain ⟨rfl, hclear⟩ := Table.guard_some h₃
    simp only [List.any_eq_true, decide_eq_true_eq] at hany
    refine ⟨hany, hclear, ?_⟩
    split at h
    · next hzero =>
      cases h
      exact ⟨t₁.money, rfl, fun _ => rfl, fun hne => absurd hzero hne⟩
    · next hpos =>
      obtain ⟨m, hm, rfl⟩ := Tables.lift_some h
      exact ⟨m, rfl, fun hz => absurd hz hpos, fun _ => hm⟩
  · cases h₂

/-! ### Grants -/

theorem Grant.fund_cases {now : Instant} {m m' : Wallet.Tables} (h : g.fund now m = some m') :
    m.lot g.org g.fundingRef = none ∧ (∀ e ∈ m.ledger, e.key ≠ g.entry.key) ∧
      m' = { m with lots := m.lots ++ [g.lot now], ledger := m.ledger ++ [g.entry] } := by
  unfold Grant.fund at h
  simp only [Option.bind_eq_bind, Option.bind_eq_some_iff] at h
  obtain ⟨_, h₁, h⟩ := h
  split at h₁
  · cases h₁
  · next hfree =>
    cases h₁
    obtain ⟨hkey, rfl⟩ := Wallet.Tables.insertEntry_some h
    exact ⟨by simpa using hfree, hkey, rfl⟩

theorem Tables.insertGrant_some (h : t.insertGrant g = some t') :
    (∀ g' ∈ t.grants, g'.key ≠ g.key ∧ ¬(g'.sourceType = g.sourceType ∧ g'.sourceId = g.sourceId)) ∧
      t' = { t with grants := t.grants ++ [g] } := by
  unfold Tables.insertGrant at h
  split at h
  · cases h
  · next hn =>
    simp only [List.any_eq_true, decide_eq_true_eq, not_exists, not_and, not_or] at hn
    exact ⟨fun g' hg => ⟨(hn g' hg).1, fun hs => (hn g' hg).2 hs.1 hs.2⟩, (Option.some.inj h).symm⟩

/-- A grant that committed: its lot is new, or is the legacy lot of its amount, or its amount
is nothing. -/
theorem Grant.batch_cases {legacy : Bool} {now : Instant} (h : g.batch legacy now c t = some t') :
    (∀ g' ∈ t.grants, g'.key ≠ g.key ∧ ¬(g'.sourceType = g.sourceType ∧ g'.sourceId = g.sourceId)) ∧
      ((0 < g.amountMicros ∧ legacy = false ∧ t.money.lot g.org g.fundingRef = none ∧
          (∀ e ∈ t.money.ledger, e.key ≠ g.entry.key) ∧
          t' = { t with
            grants := t.grants ++ [g]
            money := { t.money with
              lots := t.money.lots ++ [g.lot now]
              ledger := t.money.ledger ++ [g.entry] } }) ∨
        ((g.amountMicros = 0 ∨ (legacy = true ∧
            (t.money.lot g.org g.fundingRef).any g.legacyLot = true)) ∧
          t' = { t with grants := t.grants ++ [g] })) := by
  unfold Grant.batch at h
  simp only [Option.bind_eq_bind, Option.bind_eq_some_iff] at h
  obtain ⟨_, h₁, _, h₂, _, h₃, h⟩ := h
  obtain ⟨rfl, hv⟩ := Table.guard_some h₁
  obtain ⟨rfl, -⟩ := Table.guard_some h
  obtain ⟨hfree, rfl⟩ := Tables.insertGrant_some h₃
  split at h₂
  · next hfunds =>
    simp only [Bool.and_eq_true, decide_eq_true_eq, Bool.not_eq_true'] at hfunds
    obtain ⟨m, hm, rfl⟩ := Tables.lift_some h₂
    obtain ⟨hlot, hentry, rfl⟩ := Grant.fund_cases hm
    exact ⟨hfree, Or.inl ⟨hfunds.1, hfunds.2, hlot, hentry, rfl⟩⟩
  · next hfunds =>
    cases h₂
    refine ⟨hfree, Or.inr ⟨?_, rfl⟩⟩
    by_cases hzero : g.amountMicros = 0
    · exact Or.inl hzero
    · have hlegacy : legacy = true := by
        simpa [Nat.pos_of_ne_zero hzero] using hfunds
      simp only [hlegacy, Bool.and_eq_true, Bool.or_eq_true, Bool.not_true, Bool.false_eq_true,
        false_or, legacyHolds] at hv
      exact Or.inr ⟨hlegacy, hv.2.1.1⟩

/-- The tables but for fences and readbacks. -/
structure SameMoney (t t' : Tables) : Prop where
  lots : t'.money.lots = t.money.lots
  ledger : t'.money.ledger = t.money.ledger
  allocations : t'.money.allocations = t.money.allocations
  refunds : t'.money.refunds = t.money.refunds
  receipts : t'.receipts = t.receipts
  grants : t'.grants = t.grants
  holds : t'.holds = t.holds
  usage : t'.usage = t.usage
  tariffs : t'.tariffs = t.tariffs

theorem SameMoney.books (h : SameMoney t t') (org ref : String) :
    SameBooks t.money t'.money org ref :=
  SameBooks.of_eq h.ledger h.allocations

theorem sameMoney_freeze (org ref : String) : SameMoney t (t.freeze org ref) :=
  ⟨rfl, rfl, rfl, rfl, rfl, rfl, rfl, rfl, rfl⟩

theorem sameMoney_unfreeze {org : String} {generation cumulative : ℕ}
    (h : t.unfreeze org ref generation cumulative = some t') : SameMoney t t' := by
  unfold Tables.unfreeze at h
  simp only [Option.bind_eq_bind, Option.bind_eq_some_iff, Option.pure_def, Option.some.injEq] at h
  obtain ⟨_, h₁, rfl⟩ := h
  obtain ⟨rfl, -⟩ := Table.guard_some h₁
  exact ⟨rfl, rfl, rfl, rfl, rfl, rfl, rfl, rfl, rfl⟩

theorem sameMoney_freezeStep (t : Tables) (c : Circumstance) (org ref : String) :
    (freezeStep org ref t c).2 = t ∨ SameMoney t (freezeStep org ref t c).2 := by
  unfold freezeStep
  by_cases hv : c.vetoed = true
  · exact Or.inl (by simp [hv])
  · refine Or.inr ?_
    simp only [hv, Bool.false_eq_true, if_false]
    split <;> exact sameMoney_freeze org ref

/-- Of the statements of `unfreezeFunding` only its batch writes. -/
theorem unfreezeStep_cases (t : Tables) (c : Circumstance) (call : Call)
    (next : UnfreezeStage → Client) (done : Client) (org ref : String) (generation cumulative : ℕ)
    (stage : UnfreezeStage) :
    (unfreezeStep call next done org ref generation cumulative t c stage).2 = t ∨
      stage = .committing ∧ t.unfreeze org ref generation cumulative =
        some (unfreezeStep call next done org ref generation cumulative t c stage).2 := by
  cases stage with
  | committing =>
    simp only [unfreezeStep]
    split
    · next h =>
      split at h
      · cases h
      · exact Or.inr ⟨trivial, h⟩
    · exact Or.inl rfl
  | _ =>
    refine Or.inl ?_
    simp only [unfreezeStep]
    repeat' split
    all_goals rfl

/-- `unfreezeFunding` goes on, ends, or throws. -/
theorem unfreezeStep_client (t : Tables) (c : Circumstance) (call : Call)
    (next : UnfreezeStage → Client) (done : Client) (org ref : String) (generation cumulative : ℕ)
    (stage : UnfreezeStage) (hnext : ∀ stage, P (next stage)) (hdone : P done)
    (hthrows : ∀ code, P (call.throws code)) :
    P (unfreezeStep call next done org ref generation cumulative t c stage).1 := by
  cases stage <;> simp only [unfreezeStep]
  all_goals repeat' split
  all_goals first
    | exact hnext _
    | exact hdone
    | exact hthrows _

/-- `freezeFunding` answers with a generation, or throws. -/
theorem freezeStep_client (t : Tables) (c : Circumstance) (org ref : String)
    (hdone : ∀ n, P (.finished (.freezeFunding org ref) (.generation n)))
    (hthrows : ∀ code, P ((Call.freezeFunding org ref).throws code)) :
    P (freezeStep org ref t c).1 := by
  simp only [freezeStep]
  repeat' split
  all_goals first
    | exact hdone _
    | exact hthrows _

theorem sameMoney_unfreezeStep (t : Tables) (c : Circumstance) (call : Call)
    (next : UnfreezeStage → Client) (done : Client) (org ref : String) (generation cumulative : ℕ)
    (stage : UnfreezeStage) :
    (unfreezeStep call next done org ref generation cumulative t c stage).2 = t ∨
      SameMoney t (unfreezeStep call next done org ref generation cumulative t c stage).2 :=
  (unfreezeStep_cases t c call next done org ref generation cumulative stage).imp_right
    fun h => sameMoney_unfreeze h.2

theorem NativeProof.sameMoney_observe (p : NativeProof) (floor : ℕ) :
    SameMoney t (p.observe floor t) := by
  unfold NativeProof.observe
  by_cases hfence : t.refunded p.org p.fundingRef < max p.refundedMicros floor
  · simp only [if_pos hfence]
    split <;> exact ⟨rfl, rfl, rfl, rfl, rfl, rfl, rfl, rfl, rfl⟩
  · simp only [if_neg hfence]
    split <;> exact ⟨rfl, rfl, rfl, rfl, rfl, rfl, rfl, rfl, rfl⟩

/-- A grant of a PaymentIntent's funding that committed. -/
theorem NativeProof.grantBatch_cases {p : NativeProof} {customerId : String}
    {expiresAt : Option Instant} {now : Instant}
    (h : p.grantBatch customerId expiresAt now c t = some t') :
    (∀ g' ∈ t.grants, g'.key ≠ (p.org, p.fundingRef) ∧
        ¬(g'.sourceType = .paymentIntent ∧ g'.sourceId = p.paymentIntentId)) ∧
      0 < p.amountMinor ∧ t.money.lot p.org p.fundingRef = none ∧
      (∀ e ∈ t.money.ledger, e.key ≠ (p.grant customerId expiresAt).entry.key) ∧
      ∃ fences readbacks, t' = { t with
        grants := t.grants ++ [p.grant customerId expiresAt]
        readbacks := readbacks
        money := { t.money with
          lots := t.money.lots ++ [(p.grant customerId expiresAt).lot now]
          ledger := t.money.ledger ++ [(p.grant customerId expiresAt).entry]
          fences := fences } } := by
  unfold NativeProof.grantBatch at h
  simp only [Option.bind_eq_bind, Option.bind_eq_some_iff] at h
  obtain ⟨t₁, h₁, _, h₂, _, h₃, h⟩ := h
  obtain ⟨rfl, hv⟩ := Table.guard_some h₁
  obtain ⟨rfl, -⟩ := Table.guard_some h
  obtain ⟨hfree, rfl⟩ := Tables.insertGrant_some h₃
  obtain ⟨m, hm, rfl⟩ := Tables.lift_some h₂
  obtain ⟨hlot, hentry, rfl⟩ := Grant.fund_cases hm
  simp only [Bool.and_eq_true, decide_eq_true_eq] at hv
  -- the fence raised before the lot changes only fences
  by_cases hfloor : 0 < Tables.nativeFloor t₁ p.org p.fundingRef
  · simp only [if_pos hfloor] at hlot hentry hfree ⊢
    exact ⟨hfree, hv.1.2, hlot, hentry, _, _, rfl⟩
  · simp only [if_neg hfloor] at hlot hentry hfree ⊢
    exact ⟨hfree, hv.1.2, hlot, hentry, _, _, rfl⟩

/-! ### Refunds -/

namespace RefundInput

variable {r : RefundInput} {now : Instant}

/-- The hold row a closure closes. -/
def closes (r : RefundInput) (ref : String) (h : Hold) : Bool :=
  decide (h.org = r.grant.org ∧ h.ledgerRef = ref ∧ h.state = .live)

/-- A closure that committed. -/
theorem closeHold_cases {x : Closure} (h : r.closeHold now x t = some t') :
    (x.hasRow = true → ∃ row ∈ t.holds, r.closes x.ref row = true) ∧
      ∃ m, r.call.closeHold (x.ref, x.held) t.money = some m ∧
        t' = { t with
          holds := if x.hasRow then Table.update (r.closes x.ref) (released now) t.holds
            else t.holds
          money := m } := by
  unfold closeHold at h
  simp only [Option.bind_eq_bind, Option.bind_eq_some_iff] at h
  obtain ⟨_, h₁, h⟩ := h
  obtain ⟨m, hm, rfl⟩ := Tables.lift_some h
  split at h₁
  · next hrow =>
    unfold releaseRow at h₁
    split at h₁
    · next hany =>
      cases h₁
      simp only [List.any_eq_true] at hany
      exact ⟨fun _ => hany, m, hm, by rw [if_pos hrow]; rfl⟩
    · cases h₁
  · next hrow =>
    cases h₁
    exact ⟨fun hr => absurd hr hrow, m, hm, by rw [if_neg hrow]⟩

theorem closeHolds_induction {P : Tables → Prop} {closures : List Closure}
    (hstep : ∀ x ∈ closures, ∀ t t', P t → r.closeHold now x t = some t' → P t')
    {t t' : Tables} (h : r.closeHolds now closures t = some t') (ht : P t) : P t' := by
  induction closures generalizing t with
  | nil =>
    simp only [closeHolds, Option.some.injEq] at h
    rwa [← h]
  | cons x xs ih =>
    simp only [closeHolds, Option.bind_eq_some_iff] at h
    obtain ⟨t₁, h₁, h⟩ := h
    exact ih (fun y hy => hstep y (List.mem_cons_of_mem _ hy)) h
      (hstep x List.mem_cons_self t t₁ ht h₁)

/-- A refund that committed: its fence stood and no refund had come between, its holds were
closed and none was left on the lot, and beside its receipt only a fence changed. -/
theorem batch_cases {plan : RefundPlan} (h : r.batch plan c t = some t') :
    r.call.fenceHolds plan.figures t.money = true ∧
      ∃ t₁, r.closeHolds plan.now plan.closures t = some t₁ ∧
        r.call.consistent plan.figures t₁.money = true ∧
        (t₁.grants.any fun g => g.key = (r.grant.org, r.grant.fundingRef)) = true ∧
        (∀ row ∈ t₁.money.refunds, row.id ≠ r.refundId) ∧ 0 < r.amountMicros ∧
        ∃ fences, t' = { t₁ with
          receipts := t₁.receipts ++
            [⟨r.refundId, r.cumulativeRefundedMicros, plan.now, r.proof⟩]
          money := { t₁.money with
            refunds := t₁.money.refunds ++ [r.refundRow plan.figures]
            fences := fences } } := by
  unfold batch at h
  simp only [Option.bind_eq_bind, Option.bind_eq_some_iff, Option.pure_def, Option.some.injEq] at h
  obtain ⟨_, h₀, _, h₁, _, h₂, _, h₃, _, h₄, h⟩ := h
  obtain ⟨rfl, hv⟩ := Table.guard_some h₀
  obtain ⟨rfl, hconsistent⟩ := Table.guard_some h₂
  obtain ⟨rfl, -⟩ := Table.guard_some h₄
  simp only [Bool.and_eq_true] at hv
  unfold Tables.insertReceipt at h₃
  simp only [Option.bind_eq_bind, Option.bind_eq_some_iff, Option.pure_def, Option.some.injEq] at h₃
  obtain ⟨t₅, h₅, _, h₆, rfl⟩ := h₃
  obtain ⟨rfl, hgrant⟩ := Table.guard_some h₅
  obtain ⟨m, hm, rfl⟩ := Tables.lift_some h₆
  unfold Wallet.Tables.insertRefund at hm
  split at hm
  · cases hm
  next hfree =>
  cases hm
  rw [not_or] at hfree
  have hid : ∀ row ∈ t₅.money.refunds, row.id ≠ r.refundId := by
    intro row hrow heq
    exact hfree.1 (List.any_eq_true.mpr ⟨row, hrow, decide_eq_true heq⟩)
  refine ⟨hv.2, t₅, h₁, hconsistent, hgrant, hid, Nat.pos_of_ne_zero hfree.2, ?_⟩
  subst h
  split
  · exact ⟨_, rfl⟩
  · exact ⟨_, rfl⟩

end RefundInput

/-! ### What a step may commit -/

/-- The calls that raise fences and record readbacks. -/
def Client.observes : Client → Bool
  | .freezing _ _ | .unfreezing _ _ _ _ _ | .grantingOnDemand _ _ _ _ | .refunding _ _ => true
  | _ => false

/-- The batches and statements of the clients, each with the tables it leaves. -/
inductive Writes (c : Circumstance) (t : Tables) : Client → Tables → Prop where
  | hold {x : HoldInput} {attempted : Bool} {plan : HoldPlan x.amountMicros} {t' : Tables}
      (h : x.batch plan c t = some t') : Writes c t (.holding x attempted (.committing plan)) t'
  | close {call : Call} {rest : List Hold} {refuses : Bool} {x : Closing} {instant : Instant}
      {selection : Selection x.captured} {t' : Tables}
      (h : x.batch instant selection.picks c t = some t') :
      Writes c t (.closing call rest refuses x (.committing instant selection)) t'
  | release {org ref : String} {t' : Tables} (h : t.insertHold (tombstone org ref c.now) = some t') :
      Writes c t (.releasing org ref .inserting) t'
  | record {x : UsageInput} {attempted : Bool} {u : UsageRecord} {t' : Tables}
      (h : x.batch u c t = some t') : Writes c t (.metering x attempted (.recording u)) t'
  | pay {x : UsageInput} {attempted : Bool} {u : UsageRecord} {plan : PayPlan u.amountMicros}
      {t' : Tables} (h : u.batch plan c t = some t') :
      Writes c t (.metering x attempted (.committing u plan)) t'
  | grant {g : Grant} {legacy : Bool} {now : Instant} {t' : Tables}
      (h : g.batch legacy now c t = some t') : Writes c t (.granting g (.committing legacy now)) t'
  | grantOnDemand {p : NativeProof} {customerId : String} {expiresAt : Option Instant}
      {now : Instant} {t' : Tables} (h : p.grantBatch customerId expiresAt now c t = some t') :
      Writes c t (.grantingOnDemand p customerId expiresAt (.committing now)) t'
  | refund {r : RefundInput} {plan : RefundPlan} {t' : Tables} (h : r.batch plan c t = some t') :
      Writes c t (.refunding r (.committing plan)) t'
  /-- A fence or a readback. -/
  | observe {client : Client} {t' : Tables} (ho : client.observes = true) (h : SameMoney t t') :
      Writes c t client t'
  | wallet {w : Wallet.Client} :
      Writes c t (.wallet w) { t with money := (w.step t.money c.toCircumstance).2 }

/-- A step leaves the tables alone, or is one of the writes. -/
theorem writes_of_step (client : Client) (t : Tables) (c : Circumstance) :
    (client.step t c).2 = t ∨ Writes c t client (client.step t c).2 := by
  -- one stage of each call writes; the others read or refuse
  cases client with
  | idle => exact Or.inl rfl
  | readingHold | capturing =>
    refine Or.inl ?_
    simp only [Client.step]
    split <;> rfl
  | sweeping => exact Or.inl rfl
  | finished => exact Or.inl rfl
  | wallet w => exact Or.inr .wallet
  | freezing org ref =>
    rcases sameMoney_freezeStep t c org ref with heq | h
    · exact Or.inl heq
    · exact Or.inr (.observe rfl h)
  | unfreezing org ref generation cumulative stage =>
    rcases sameMoney_unfreezeStep t c _ _ _ org ref generation cumulative stage with heq | h
    · exact Or.inl heq
    · exact Or.inr (.observe rfl h)
  | holding _ _ stage =>
    cases stage with
    | committing =>
      simp only [Client.step, HoldInput.step]
      split
      · next h => exact Or.inr (.hold h)
      · exact Or.inl rfl
    | _ =>
      refine Or.inl ?_
      simp only [Client.step, HoldInput.step]
      repeat' split
      all_goals rfl
  | releasing _ _ stage =>
    cases stage with
    | inserting =>
      simp only [Client.step, releaseStep]
      split
      · next h => exact Or.inr (.release h)
      · exact Or.inl rfl
    | _ =>
      refine Or.inl ?_
      simp only [Client.step, releaseStep]
      repeat' split
      all_goals rfl
  | closing _ _ _ _ stage =>
    cases stage with
    | committing =>
      simp only [Client.step, Closing.step]
      split
      · next h => exact Or.inr (.close h)
      · exact Or.inl rfl
    | _ =>
      refine Or.inl ?_
      simp only [Client.step, Closing.step]
      repeat' split
      all_goals rfl
  | metering _ _ stage =>
    cases stage with
    | recording u =>
      simp only [Client.step, UsageInput.step]
      split
      · next h => exact Or.inr (.record h)
      · exact Or.inl rfl
    | committing =>
      simp only [Client.step, UsageInput.step]
      split
      · next h => exact Or.inr (.pay h)
      · exact Or.inl rfl
    | _ =>
      refine Or.inl ?_
      simp only [Client.step, UsageInput.step]
      repeat' split
      all_goals rfl
  | granting g stage =>
    cases stage with
    | committing =>
      simp only [Client.step, Grant.step]
      split
      · next h => exact Or.inr (.grant h)
      · exact Or.inl rfl
    | _ =>
      refine Or.inl ?_
      simp only [Client.step, Grant.step]
      repeat' split
      all_goals rfl
  | grantingOnDemand p _ _ stage =>
    cases stage with
    | committing =>
      simp only [Client.step, NativeProof.step]
      split
      · next h => exact Or.inr (.grantOnDemand h)
      · exact Or.inl rfl
    | observing floor =>
      simp only [Client.step, NativeProof.step]
      split
      · exact Or.inl rfl
      · exact Or.inr (.observe rfl (p.sameMoney_observe floor))
    | _ =>
      refine Or.inl ?_
      simp only [Client.step, NativeProof.step]
      repeat' split
      all_goals rfl
  | refunding r stage =>
    cases stage with
    | committing =>
      simp only [Client.step, RefundInput.step]
      split
      · next h => exact Or.inr (.refund h)
      · exact Or.inl rfl
    | observing p floor =>
      simp only [Client.step, RefundInput.step]
      split
      · exact Or.inl rfl
      · exact Or.inr (.observe rfl (p.sameMoney_observe floor))
    | unfreezing row cumulative stage =>
      rcases sameMoney_unfreezeStep t c _ _ _ _ _ _ cumulative stage with heq | h
      · exact Or.inl heq
      · exact Or.inr (.observe rfl h)
    | clearing =>
      simp only [Client.step, RefundInput.step]
      split
      · exact Or.inl rfl
      · split
        · exact Or.inr (.observe rfl ⟨rfl, rfl, rfl, rfl, rfl, rfl, rfl, rfl, rfl⟩)
        · exact Or.inl rfl
    | row _ _ _ refs =>
      refine Or.inl ?_
      cases refs <;>
      · simp only [Client.step, RefundInput.step]
        repeat' split
        all_goals rfl
    | _ =>
      refine Or.inl ?_
      simp only [Client.step, RefundInput.step]
      repeat' split
      all_goals rfl

/-! ### The other users of the wallet -/

/-- The call a client of the wallet makes. -/
def caller : Wallet.Client → Option Wallet.Call
  | .idle => none
  | .funding f _ => some (.fund f)
  | .debiting d _ => some (.debit d)
  | .settling s _ => some (.settle s)
  | .refunding r _ => some (.refund r)
  | .finished call _ => some call

/-- The client of the wallet is one of its other users. -/
def Foreign (w : Wallet.Client) : Prop := ∀ call, caller w = some call → foreign call = true

variable {w : Wallet.Client} {m : Wallet.Tables}

theorem foreign_start {call : Wallet.Call} (h : foreign call = true) : Foreign call.start := by
  intro call' heq
  have hcall : caller call.start = some call := by
    unfold Wallet.Call.start
    cases call <;> simp only <;> split <;> rfl
  rw [hcall] at heq
  rwa [← Option.some.inj heq]

theorem caller_step (w : Wallet.Client) (m : Wallet.Tables) (c : Wallet.Circumstance) :
    caller (w.step m c).1 = caller w := by
  cases w with
  | idle => rfl
  | finished => rfl
  | funding =>
    simp only [Wallet.Client.step, Wallet.FundCall.step]
    repeat' split
    all_goals rfl
  | debiting =>
    simp only [Wallet.Client.step, Wallet.DebitCall.step, Wallet.DebitCall.insufficient]
    repeat' split
    all_goals rfl
  | settling =>
    simp only [Wallet.Client.step, Wallet.SettleCall.step, Wallet.SettleCall.commits]
    repeat' split
    all_goals rfl
  | refunding =>
    simp only [Wallet.Client.step, Wallet.RefundCall.step, Wallet.RefundCall.refuse]
    repeat' split
    all_goals rfl

theorem Foreign.step (h : Foreign w) (m : Wallet.Tables) (c : Wallet.Circumstance) :
    Foreign (w.step m c).1 := by
  intro call heq
  rw [caller_step] at heq
  exact h call heq

/-- Another user of the wallet leaves the books of holds and usage records. -/
theorem Foreign.sameBooks (hw : Foreign w) (hn : (m.allocations.map Wallet.Allocation.key).Nodup)
    (c : Wallet.Circumstance) (org : String) (hl : lifecycle ref = true) :
    SameBooks m (w.step m c).2 org ref := by
  rcases Wallet.step_cases m c w with heq | ⟨f, -, hb⟩ | ⟨d, _, _, rfl, hb⟩ |
    ⟨s, plan, rfl, hb⟩ | ⟨r, plan, rfl, hb⟩
  · rw [heq]
    exact .refl _ _ _
  · exact Wallet.FundCall.batch_sameBooks hb org ref
  · refine Wallet.DebitCall.batch_sameBooks hn hb fun heq => ?_
    have hf : (!lifecycle d.reference) = true := hw (.debit d) rfl
    rw [heq.2, hl] at hf
    cases hf
  · refine Wallet.SettleCall.batch_sameBooks hb fun heq => ?_
    have hf : (!lifecycle s.reference) = true := hw (.settle s) rfl
    rw [heq.2, hl] at hf
    cases hf
  · have hf : false = true := hw (.refund r) rfl
    cases hf

theorem Foreign.keys (hw : Foreign w) (hn : (m.allocations.map Wallet.Allocation.key).Nodup)
    (c : Wallet.Circumstance) :
    ((w.step m c).2.allocations.map Wallet.Allocation.key).Nodup := by
  rcases Wallet.step_cases m c w with heq | ⟨f, -, hb⟩ | ⟨d, _, _, rfl, hb⟩ |
    ⟨s, plan, rfl, hb⟩ | ⟨r, plan, rfl, hb⟩
  · rwa [heq]
  · obtain ⟨_, _, heq, -⟩ := Wallet.FundCall.batch_books hb
    rw [heq]
    exact hn
  · obtain ⟨-, -, -, -, hkeys, -⟩ := Wallet.DebitCall.batch_books hn hb
    exact hkeys
  · exact Wallet.SettleCall.batch_keys hb hn
  · have hf : false = true := hw (.refund r) rfl
    cases hf

end Takoserver.Org
