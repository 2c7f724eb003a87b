import Takoserver.Wallet.Backing

/-!
# No credit is spent twice

The runs of the wallet's calls, with fundings, debits, settlements and refunds
by any number of clients.  A call plans from rows that are stale when its batch
commits; what the batch relies on is that lots and entries never go away, that
a refund before it shows in the sums its guards compare, and that every
allocation checks its lot again.
-/

namespace Takoserver.Wallet

variable {t t' : Tables}

/-! ### What `wallet()` reports -/

/-- No frozen lot with credit left is left out of `settled` as blocked free credit. -/
def Tables.frozenCounted (t : Tables) (c : Circumstance) (org : String) : Bool :=
  t.lots.all fun l =>
    !(l.org = org && t.fenced l.org l.ref && c.current l && c.excludes l) ||
      decide (t.remaining l ≤ 0)

/-- What is drawn on a lot is spent or held. -/
theorem allocatedTo_split (t : Tables) (org ref : String) :
    t.allocatedTo org ref =
      t.allocatedFrom [.hold] org ref + t.allocatedFrom [.capture, .usageDebit] org ref := by
  unfold Tables.allocatedTo Tables.allocatedFrom
  rw [Table.sumIf_split fun a => decide (a.debitType = .hold)]
  congr 1
  · refine Table.sumIf_congr fun a _ => ?_
    cases hty : a.debitType <;> simp
  · refine Table.sumIf_congr fun a _ => ?_
    cases hty : a.debitType <;> simp

variable {c : Circumstance} {f : FundCall} {r : RefundCall} {client : Client}

namespace Backed

theorem allocatedHeld_by_lot (hb : Backed t) (org : String) :
    Table.sumIf (fun l => decide (l.org = org)) (fun l => t.allocatedFrom [.hold] l.org l.ref) t.lots =
      t.allocatedHeld org := by
  have hfiber : Table.sumIf (fun l => decide (l.org = org))
      (fun l => Table.sumIf (fun a => (decide (a.debitType = .hold) && decide (a.org = org)) &&
        decide ((a.org, a.lotRef) = l.key)) Allocation.amountMicros t.allocations) t.lots =
          t.allocatedHeld org := by
    refine Table.sumIf_fiber hb.lot_keys t.allocations fun a ha hp => ?_
    simp only [Bool.and_eq_true, decide_eq_true_eq] at hp
    obtain ⟨l, hl, hk⟩ := hb.lot_of_allocation a ha
    exact ⟨l, hl, decide_eq_true ((Lot.key_eq.mp hk).1.trans hp.2), hk⟩
  refine Eq.trans (Table.sumIf_congr fun l _ => ?_) hfiber
  by_cases hl : l.org = org
  · simp only [hl, decide_true, if_true]
    refine Table.sumIf_congr fun a _ => ?_
    congr 1
    simp only [List.mem_singleton, Lot.key, Bool.and_eq_true, decide_eq_true_eq, Prod.mk.injEq,
      eq_iff_iff]
    constructor
    · rintro ⟨ho, hr, hty⟩
      exact ⟨⟨hty, ho⟩, ho.trans hl.symm, hr⟩
    · rintro ⟨⟨hty, ho⟩, -, hr⟩
      exact ⟨ho, hr, hty⟩
  · simp [hl]

/-- A lot counts for what is held of it, what is frozen of it and what can be drawn on it. -/
theorem settledOf_eq (hb : Backed t) {org : String} (hfrozen : t.frozenCounted c org = true) {l : Lot}
    (hl : l ∈ t.lots) (horg : l.org = org) :
    t.settledOf c l = t.allocatedFrom [.hold] l.org l.ref +
      (if t.fenced l.org l.ref && c.current l then max 0 (t.remaining l) else 0) +
        if t.lotPredicate c none l then t.remaining l else 0 := by
  subst horg
  have hcovered := hb.covered l hl
  have hsplit := allocatedTo_split t l.org l.ref
  have hcounted := List.all_eq_true.mp hfrozen l hl
  unfold Tables.settledOf Tables.lotPredicate Admission.admits
  unfold Tables.remaining at hcovered hcounted ⊢
  cases hcurrent : c.current l
  · simp
  · cases hexcludes : c.excludes l <;> cases hfenced : t.fenced l.org l.ref <;>
      simp only [hcurrent, hexcludes, hfenced, decide_true, Bool.and_self, Bool.not_true,
        Bool.not_false, Bool.and_false, Bool.and_true, Bool.false_or, Bool.true_or,
        decide_eq_true_eq, if_true, Bool.false_eq_true, if_false] at hcounted ⊢ <;>
      omega

/-- **`availableMicros` is what the lots a hold may draw on have left.** -/
theorem available_eq (hb : Backed t) {org : String} (hfrozen : t.frozenCounted c org = true) :
    (t.totals c org).available =
      Table.sumIf (fun l => decide (l.org = org) && t.lotPredicate c none l) t.remaining t.lots := by
  have hheld : t.heldBalance org = t.allocatedHeld org := hb.held fun o _ => o = org
  let hold : Lot → ℤ := fun l => t.allocatedFrom [.hold] l.org l.ref
  let frozen : Lot → ℤ := fun l =>
    if t.fenced l.org l.ref && c.current l then max 0 (t.remaining l) else 0
  let drawable : Lot → ℤ := fun l => if t.lotPredicate c none l then t.remaining l else 0
  have hholds : Table.sumIf (fun l => decide (l.org = org)) hold t.lots = t.allocatedHeld org := by
    rw [← hb.allocatedHeld_by_lot org, Table.sumIf_natCast]
  have hfrozens : Table.sumIf (fun l => decide (l.org = org)) frozen t.lots =
      (t.totals c org).frozen := by
    refine Table.sumIf_congr fun l _ => ?_
    cases decide (l.org = org) <;> simp [frozen]
  have hdrawables : Table.sumIf (fun l => decide (l.org = org)) drawable t.lots =
      Table.sumIf (fun l => decide (l.org = org) && t.lotPredicate c none l) t.remaining
        t.lots := by
    refine Table.sumIf_congr fun l _ => ?_
    cases decide (l.org = org) <;> simp [drawable]
  have hsettled : t.settledBalance c org =
      Table.sumIf (fun l => decide (l.org = org)) (fun l => hold l + frozen l + drawable l)
        t.lots := by
    refine Table.sumIf_congr fun l hl => ?_
    by_cases horg : l.org = org
    · simp only [horg, decide_true, if_true]
      exact hb.settledOf_eq hfrozen hl horg
    · simp [horg]
  rw [Table.sumIf_add, Table.sumIf_add, hholds, hfrozens, hdrawables] at hsettled
  show t.settledBalance c org - t.heldBalance org - (t.totals c org).frozen = _
  omega

/-- **`wallet()` answers**, where it can represent its figures. -/
theorem conserved (hb : Backed t) {org : String} (hsafe : (t.totals c org).safe = true)
    (hfrozen : t.frozenCounted c org = true) :
    (t.totals c org).conserved = true := by
  have hheld : t.heldBalance org = t.allocatedHeld org := hb.held fun o _ => o = org
  have havailable : 0 ≤ (t.totals c org).available := by
    rw [hb.available_eq hfrozen]
    exact Table.sumIf_nonneg fun l hl _ => hb.covered l hl
  have hfrozen_nonneg : 0 ≤ (t.totals c org).frozen := by
    refine Table.sumIf_nonneg fun l _ _ => ?_
    exact le_max_left ..
  unfold Totals.conserved
  rw [hsafe, Bool.true_and, decide_eq_true_eq]
  have hs : (t.totals c org).available =
      (t.totals c org).settled - (t.totals c org).held - (t.totals c org).frozen := rfl
  have hh : (t.totals c org).held = t.heldBalance org := rfl
  have ha : (t.totals c org).allocatedHeld = t.allocatedHeld org := rfl
  have hr : 0 ≤ (t.totals c org).receivable := Int.natCast_nonneg _
  refine ⟨?_, ?_, havailable, hfrozen_nonneg, hr, ?_⟩ <;> omega

end Backed

/-! ### What batches never take away -/

/-- Lots and entries stay, and refunds are only added. -/
structure Grows (t t' : Tables) : Prop where
  lots : ∀ l ∈ t.lots, l ∈ t'.lots
  ledger : ∀ e ∈ t.ledger, e ∈ t'.ledger
  refunds : ∃ rows : List Refund, t'.refunds = t.refunds ++ rows ∧ ∀ r ∈ rows, 0 < r.amountMicros

namespace Grows

theorem of_eq (hlots : t'.lots = t.lots) (hledger : t'.ledger = t.ledger)
    (hrefunds : t'.refunds = t.refunds) : Grows t t' :=
  ⟨fun l hl => by rwa [hlots], fun e he => by rwa [hledger], [], by simp [hrefunds], by simp⟩

theorem refl (t : Tables) : Grows t t := .of_eq rfl rfl rfl

theorem trans {u : Tables} (h : Grows t t') (h' : Grows t' u) : Grows t u := by
  obtain ⟨rows, hrows, hpos⟩ := h.refunds
  obtain ⟨rows', hrows', hpos'⟩ := h'.refunds
  refine ⟨fun l hl => h'.lots l (h.lots l hl), fun e he => h'.ledger e (h.ledger e he),
    rows ++ rows', by rw [hrows', hrows, List.append_assoc], fun r hr => ?_⟩
  rcases List.mem_append.mp hr with hr | hr
  · exact hpos r hr
  · exact hpos' r hr

theorem append_entry (e : Entry) : Grows t { t with ledger := t.ledger ++ [e] } :=
  ⟨fun _ h => h, fun _ h => List.mem_append_left _ h, [], by simp, by simp⟩

theorem insertEntryOrIgnore (t : Tables) (e : Entry) : Grows t (t.insertEntryOrIgnore e) := by
  rcases t.insertEntryOrIgnore_cases e with ⟨-, heq⟩ | ⟨-, heq⟩ <;> rw [heq]
  · exact .refl t
  · exact .append_entry e

theorem fund (h : f.batch c t = some t') : Grows t t' := by
  obtain ⟨l, -, -, -, rfl, -, -⟩ := FundCall.batch_cases h
  refine trans ?_ (insertEntryOrIgnore _ _)
  rcases t.insertLotOrIgnore_cases l with ⟨-, heq⟩ | ⟨-, heq⟩ <;> rw [heq]
  · exact .refl t
  · exact ⟨fun _ h => List.mem_append_left _ h, fun _ h => h, [], by simp, by simp⟩

theorem debit {d : DebitCall} {picks : List Pick} {now : Instant}
    (hn : (t.allocations.map Allocation.key).Nodup) (h : d.batch picks now c t = some t') :
    Grows t t' := by
  obtain ⟨-, -, rfl⟩ := DebitCall.batch_cases h
  obtain ⟨_, heq, -⟩ := DebitCall.allocate_cases (d := d) { c with now := now } picks t hn
  refine trans ?_ (insertEntryOrIgnore _ _)
  rw [heq]
  exact .of_eq rfl rfl rfl

theorem settle {s : SettleCall} {plan : SettlePlan s.amountMicros} (h : s.batch plan c t = some t') :
    Grows t t' := by
  obtain ⟨_, hmoves, -, -, rfl⟩ := SettleCall.batch_cases h
  obtain ⟨hlots, hledger, hrefunds, -⟩ := SettleCall.moves_same hmoves
  exact (of_eq hlots hledger hrefunds).trans (append_entry _)

theorem refund {plan : RefundPlan} (h : r.batch plan c t = some t') : Grows t t' := by
  obtain ⟨-, t₁, row, hclose, -, -, -, _, -, hlots, hledger, -, hrefunds⟩ :=
    RefundCall.batch_cases h
  have h₁ : Grows t t₁ := by
    refine RefundCall.closeHolds_induction (P := Grows t) (fun closure u u' hu hc => ?_) hclose
      (.refl t)
    obtain ⟨-, -, rfl⟩ := RefundCall.closeHold_cases hc
    exact hu.trans ⟨fun _ h => h, fun _ h => List.mem_append_left _ h, [], by simp, by simp⟩
  refine h₁.trans ⟨fun l hl => by rwa [hlots], fun e he => by rwa [hledger], [row], hrefunds, ?_⟩
  intro x hx
  rwa [List.mem_singleton.mp hx]

theorem step (hn : (t.allocations.map Allocation.key).Nodup) (c : Circumstance) (client : Client) :
    Grows t (client.step t c).2 := by
  rcases step_cases t c client with heq | ⟨f, -, hb⟩ | ⟨d, _, _, -, hb⟩ |
    ⟨s, plan, -, hb⟩ | ⟨r, plan, -, hb⟩
  · rw [heq]
    exact .refl t
  · exact fund hb
  · exact debit hn hb
  · exact settle hb
  · exact refund hb

end Grows

/-! ### What a call knows -/

/-- The funding's lot and entry are in the tables. -/
structure FundCall.Credited (f : FundCall) (t : Tables) : Prop where
  lot : ∃ l ∈ t.lots, l.key = (f.org, f.fundingRef) ∧ f.lotMatches l = true
  entry : ∃ e ∈ t.ledger, e.key = (f.org, .funding, f.fundingRef) ∧ f.entryMatches e = true

/-- What a call has read and its next statements rely on. -/
def Client.Knows (t : Tables) : Client → Prop
  | .funding f .readLot | .funding f .readFunding | .funding f (.reporting true)
  | .finished (.fund f) .ok => f.Credited t
  | .refunding r (.heldRefs prior) | .refunding r (.totals prior _ _) => prior.Stands r t
  | .refunding r (.committing plan) => plan.Sound r t
  | _ => True

theorem FundCall.Credited.mono (h : f.Credited t) (hg : Grows t t') :
    f.Credited t' := by
  obtain ⟨⟨l, hl, hlk⟩, ⟨e, he, hek⟩⟩ := h
  exact ⟨⟨l, hg.lots l hl, hlk⟩, ⟨e, hg.ledger e he, hek⟩⟩

/-- What a refund knows of the refunds before it stands: another one adds to their amounts. -/
theorem PriorRefunds.Stands.mono {prior : PriorRefunds} (h : prior.Stands r t) (hg : Grows t t') :
    prior.Stands r t' := by
  obtain ⟨rows, hrows, hpos⟩ := hg.refunds
  have hsum : ∀ f : Refund → ℕ, t'.refundSum f r.org r.fundingRef =
      t.refundSum f r.org r.fundingRef +
        Table.sumIf (fun x => decide (x.org = r.org ∧ x.fundingRef = r.fundingRef)) f rows := by
    intro f
    unfold Tables.refundSum
    rw [hrows, Table.sumIf_append]
  refine ⟨?_, fun heq => ?_⟩
  · rw [hsum]
    exact h.1.trans (Nat.le_add_right _ _)
  rw [hsum] at heq
  have hold : t.refundSum Refund.amountMicros r.org r.fundingRef = prior.refunded := by
    have := h.1
    omega
  -- the refunds that came since add nothing, so none is of this funding
  have hnone : ∀ x ∈ rows,
      decide (x.org = r.org ∧ x.fundingRef = r.fundingRef) = true → x.debitMicros = 0 := by
    intro x hx hp
    have hle := Table.le_sumIf (p := fun x : Refund =>
      decide (x.org = r.org ∧ x.fundingRef = r.fundingRef)) (f := Refund.amountMicros) hx hp
    have := hpos x hx
    omega
  rw [hsum, Table.sumIf_eq_zero hnone, add_zero]
  exact h.2 hold

theorem Client.Knows.mono (h : client.Knows t) (hg : Grows t t') :
    client.Knows t' := by
  unfold Client.Knows at h ⊢
  split
  · exact FundCall.Credited.mono h hg
  · exact FundCall.Credited.mono h hg
  · exact FundCall.Credited.mono h hg
  · exact FundCall.Credited.mono h hg
  · exact PriorRefunds.Stands.mono h hg
  · exact PriorRefunds.Stands.mono h hg
  · obtain ⟨hprior, hwithin, hlot⟩ : RefundPlan.Sound _ _ t := h
    refine ⟨hprior.mono hg, hwithin, hlot.imp_right ?_⟩
    rintro ⟨l, hl, hk⟩
    exact ⟨l, hg.lots l hl, hk⟩
  · exact trivial

theorem plan_sound {prior : PriorRefunds} {closures : List (String × ℕ)} {spent : ℕ} {now : Instant}
    {plan : RefundPlan} (hprior : prior.Stands r t)
    (h : r.plan prior closures (t.lot r.org r.fundingRef) spent now = some plan) :
    plan.Sound r t := by
  unfold RefundCall.plan at h
  split at h
  · cases h
  next hcheck =>
  simp only [Bool.or_eq_true, Bool.not_eq_true', decide_eq_true_eq, not_or,
    Bool.not_eq_false, not_lt] at hcheck
  obtain ⟨⟨hlot, -⟩, _⟩ := hcheck
  obtain rfl := (Option.some.inj h).symm
  refine ⟨hprior, ?_, ?_⟩
  · simp only
    omega
  · cases hl : t.lot r.org r.fundingRef with
    | none =>
      rw [hl, RefundCall.lotMatches, decide_eq_true_eq] at hlot
      exact Or.inl hlot
    | some l =>
      rw [hl, RefundCall.lotMatches, decide_eq_true_eq] at hlot
      obtain ⟨hmem, ho, hr⟩ := Tables.lot_some hl
      exact Or.inr ⟨l, hmem, Lot.key_eq.mpr ⟨ho, hr⟩, hlot.2⟩

theorem credited_of_batch (h : f.batch c t = some t') :
    f.Credited t' := by
  obtain ⟨-, -, -, -, -, hlot, hentry⟩ := FundCall.batch_cases h
  obtain ⟨l, hl, hmatches⟩ := (Option.any_eq_true _ _).mp hlot
  obtain ⟨e, he, hematches⟩ := (Option.any_eq_true _ _).mp hentry
  obtain ⟨hmem, ho, hr⟩ := Tables.lot_some hl
  obtain ⟨hemem, hk⟩ := Tables.entry_some he
  exact ⟨⟨l, hmem, Lot.key_eq.mpr ⟨ho, hr⟩, hmatches⟩, ⟨e, hemem, hk, hematches⟩⟩

theorem knows_start (call : Call) (t : Tables) : call.start.Knows t := by
  unfold Call.start
  cases call <;> simp only <;> split <;> exact trivial

theorem Client.Knows.step (h : client.Knows t) (c : Circumstance) :
    (client.step t c).1.Knows (client.step t c).2 := by
  -- a stage remembers the credit or the refunds it read
  cases client with
  | idle => exact trivial
  | finished => exact h
  | debiting d stage =>
    show (d.step t c stage).1.Knows (d.step t c stage).2
    unfold DebitCall.step DebitCall.insufficient
    repeat' split
    all_goals exact trivial
  | settling s stage =>
    have hcommits : ∀ plan, (s.commits plan).Knows t := fun plan => by cases plan <;> exact trivial
    show (s.step t c stage).1.Knows (s.step t c stage).2
    simp only [SettleCall.step]
    repeat' split
    all_goals first | exact trivial | exact hcommits _
  | funding f stage =>
    cases stage with
    | committing =>
      simp only [Client.step, FundCall.step]
      cases hb : f.batch c t with
      | some t' => exact credited_of_batch hb
      | none =>
        simp only
        split <;> exact trivial
    | readLot =>
      simp only [Client.step, FundCall.step]
      split
      · exact h
      · exact trivial
    | readFunding =>
      simp only [Client.step, FundCall.step]
      split
      · exact h
      · exact trivial
    | reporting credited =>
      simp only [Client.step, FundCall.step]
      split
      · cases credited with
        | true => exact h
        | false => exact trivial
      · exact trivial
    | priorLot => exact trivial
    | recheckLot => exact trivial
    | priorFunding =>
      simp only [Client.step, FundCall.step]
      split <;> exact trivial
    | asking =>
      simp only [Client.step, FundCall.step]
      split <;> exact trivial
    | recheckFunding =>
      simp only [Client.step, FundCall.step]
      split <;> exact trivial
  | refunding r stage =>
    cases stage with
    | prior =>
      simp only [Client.step, RefundCall.step]
      split
      · exact trivial
      · exact ⟨le_refl _, fun _ => rfl⟩
    | heldRefs => exact h
    | totals _ _ refs =>
      cases refs with
      | cons =>
        simp only [Client.step, RefundCall.step]
        split
        · exact h
        · exact trivial
      | nil =>
        simp only [Client.step, RefundCall.step]
        split
        · next hplan => exact plan_sound h hplan
        · exact trivial
    | committing =>
      simp only [Client.step, RefundCall.step]
      split <;> exact trivial
    | receipt =>
      simp only [Client.step, RefundCall.step]
      split <;> exact trivial

/-! ### What a call has changed -/

/-- The call has committed nothing at this point: all but the points after a funding's batch
and a successful end. -/
def Client.unchanged : Client → Bool
  | .idle | .funding _ .readLot | .funding _ .readFunding | .funding _ (.reporting true)
  | .finished _ .ok => false
  | _ => true

/-- A statement that changes the tables is a batch, and ends at a point that says so. -/
theorem unchanged_step (h : t.sameMoney (client.step t c).2 = false) :
    (client.step t c).1.unchanged = false := by
  rcases step_cases t c client with heq | ⟨f, rfl, hb⟩ | ⟨d, selection, now, rfl, hb⟩ |
    ⟨s, plan, rfl, hb⟩ | ⟨r, plan, rfl, hb⟩
  · rw [heq] at h
    simp [Tables.sameMoney] at h
  · show (f.step t c .committing).1.unchanged = false
    simp only [FundCall.step]
    rw [hb]
    rfl
  · show (d.step t c (.committing selection now)).1.unchanged = false
    simp only [DebitCall.step]
    rw [hb]
    rfl
  · show (s.step t c (.committing plan)).1.unchanged = false
    simp only [SettleCall.step]
    rw [hb]
    rfl
  · show (r.step t c (.committing plan)).1.unchanged = false
    simp only [RefundCall.step]
    rw [hb]
    rfl

/-- The `wallet()` a funding ends with can answer. -/
def Client.reports (t : Tables) (c : Circumstance) : Client → Bool
  | .funding f (.reporting true) => (t.totals c f.org).safe && t.frozenCounted c f.org
  | _ => true

/-- After its batch a funding only succeeds: what it reads back is what it committed, and
`wallet()` finds the figures conserved. -/
theorem changed_step (hb : Backed t) (hk : client.Knows t) (hreports : client.reports t c = true)
    (h : client.unchanged = false) :
    (client.step t c).1.unchanged = false := by
  cases client with
  | idle => rfl
  | finished => exact h
  | debiting => cases h
  | settling => cases h
  | refunding => cases h
  | funding f stage =>
    cases stage with
    | readLot =>
      obtain ⟨⟨l, hl, hlk, hmatches⟩, -⟩ : f.Credited t := hk
      have hlot : t.lot f.org f.fundingRef = some l :=
        (Table.find_eq_some_iff hb.lot_keys).mpr ⟨hl, hlk⟩
      simp [Client.step, FundCall.step, hlot, hmatches, Client.unchanged]
    | readFunding =>
      obtain ⟨-, ⟨e, he, hek, hmatches⟩⟩ : f.Credited t := hk
      have hentry : t.entry f.org .funding f.fundingRef = some e :=
        (Table.find_eq_some_iff hb.entry_keys).mpr ⟨he, hek⟩
      simp [Client.step, FundCall.step, hentry, hmatches, Client.unchanged]
    | reporting credited =>
      cases credited with
      | false => cases h
      | true =>
        simp only [Client.reports, Bool.and_eq_true] at hreports
        have hconserved := hb.conserved hreports.1 hreports.2
        simp [Client.step, FundCall.step, hconserved, Client.unchanged]
    | _ => cases h

/-! ### Runs -/

/-- The batch a client is about to run, if it commits, commits on current rows: a debit
inserts nothing for a reference the ledger has, and a settlement finds every hold row it
selected with the amount it read. -/
def Client.spends (t : Tables) (c : Circumstance) : Client → Bool
  | .debiting d (.committing selection now) =>
      !(d.recorded t && (d.batch selection.picks now c t).isSome) ||
        d.idle { c with now := now } selection.picks t
  | .settling s (.committing plan) =>
      !(s.batch plan c t).isSome || s.current plan.selection.picks t
  | _ => true

/-- Every batch of the run commits on current rows, and every `wallet()` that ends a funding
can answer. -/
def spendsCurrent (s : System) : WalletAction → Bool
  | .step i c => (s.client i).spends s.db c && (s.client i).reports s.db c
  | _ => true

theorem backed_step (hb : Backed t) (hp : client.Planned) (hk : client.Knows t)
    (hspends : client.spends t c = true) : Backed (client.step t c).2 := by
  rcases step_cases t c client with heq | ⟨f, -, hbatch⟩ | ⟨d, _, _, rfl, hbatch⟩ |
    ⟨s, plan, rfl, hbatch⟩ | ⟨r, plan, rfl, hbatch⟩
  · rwa [heq]
  · exact hb.fund hbatch
  · refine hb.debit hbatch fun hrec => ?_
    simpa [Client.spends, hrec, hbatch] using hspends
  · refine hb.settle hp.1 hp.2 ?_ hbatch
    simpa [Client.spends, hbatch] using hspends
  · exact hb.refund hk hbatch

theorem backed_init : Backed {} :=
  ⟨settled_init, ⟨List.nodup_nil, by simp, by simp⟩, by simp, by simp, by simp, by simp⟩

/-- The invariant of the runs whose batches commit on current rows. -/
structure Spent (s : System) : Prop where
  backed : Backed s.db
  planned : ∀ i, (s.client i).Planned
  knows : ∀ i, (s.client i).Knows s.db
  changes : ∀ i, (s.client i).unchanged = true → s.changes i = 0

theorem Spent.next {s s' : System} {a : WalletAction} (h : Spent s)
    (hok : spendsCurrent s a = true) (hn : wallets.next s a = some s') : Spent s' := by
  obtain ⟨hb, hp, hk, hc⟩ := h
  -- one client has moved to `client`; the others know what they knew
  have hclient : ∀ (i : ℕ) (client : Client) (t : Tables) (n : ℕ), Grows s.db t →
      client.Planned → client.Knows t → (client.unchanged = true → n = 0) → ∀ j,
        (Function.update s.client i client j).Planned ∧
        (Function.update s.client i client j).Knows t ∧
        ((Function.update s.client i client j).unchanged = true →
          Function.update s.changes i n j = 0) := by
    intro i client t n hg hp' hk' hc' j
    by_cases hj : j = i
    · subst hj
      rw [Function.update_self, Function.update_self]
      exact ⟨hp', hk', hc'⟩
    · rw [Function.update_of_ne hj, Function.update_of_ne hj]
      exact ⟨hp j, (hk j).mono hg, hc j⟩
  cases a with
  | call i call =>
    cases hn
    have hall := hclient i call.start s.db 0 (.refl _) (planned_start call) (knows_start call _)
      fun _ => rfl
    exact ⟨hb, fun j => (hall j).1, fun j => (hall j).2.1, fun j => (hall j).2.2⟩
  | step i c =>
    cases hn
    rw [spendsCurrent, Bool.and_eq_true] at hok
    have hb' := backed_step hb (hp i) (hk i) hok.1
    have hchanges : ((s.client i).step s.db c).1.unchanged = true →
        (if s.db.sameMoney ((s.client i).step s.db c).2 then s.changes i
          else s.changes i + 1) = 0 := by
      intro hun
      cases hsame : s.db.sameMoney ((s.client i).step s.db c).2 with
      | false =>
        rw [unchanged_step hsame] at hun
        cases hun
      | true =>
        rw [if_pos rfl]
        refine hc i ?_
        by_contra hchanged
        rw [changed_step hb (hk i) hok.2 (by simpa using hchanged)] at hun
        cases hun
    have hall := hclient i _ _ _ (Grows.step hb.allocation_keys c (s.client i))
      (planned_step hb.allocation_keys c (hp i)) ((hk i).step c) hchanges
    exact ⟨hb', fun j => (hall j).1, fun j => (hall j).2.1, fun j => (hall j).2.2⟩
  | crash i =>
    cases hn
    have hall := hclient i .idle s.db (s.changes i) (.refl _) trivial trivial fun h => by cases h
    refine ⟨hb, fun j => (hall j).1, fun j => (hall j).2.1, fun j => ?_⟩
    have hj := (hall j).2.2
    rwa [Function.update_eq_self] at hj
  | fence f =>
    cases hn
    have hgrows : Grows s.db (s.db.setFence f) := .of_eq rfl rfl rfl
    exact ⟨⟨hb.toSettled.of_frame rfl rfl, ⟨hb.lot_keys, hb.lot_of_allocation, hb.covered⟩,
      hb.lot_of_refund, hb.usage, hb.funded, hb.credited⟩, hp, fun j => (hk j).mono hgrows, hc⟩

theorem spent_of_reachVia {s : System} (h : wallets.ReachVia (fun s a => spendsCurrent s a) s) :
    Spent s := by
  refine Machine.ReachVia.invariant (P := Spent) ?_ (fun _ _ _ hs hok hn => hs.next hok hn) h
  exact ⟨backed_init, fun _ => trivial, fun _ => trivial, fun _ _ => rfl⟩

/-! ### The guarantee -/

/-- A debit of the ledger has allocations of exactly its amount; a hold's are what is left of
it and what was captured, once what was released is taken off. -/
def Tables.backs (t : Tables) (e : Entry) : Prop :=
  match e.type with
  | .usageDebit => (t.allocatedBy e.org .usageDebit e.ref : ℤ) = -e.settledDeltaMicros
  | .hold => (t.allocatedBy e.org .hold e.ref + t.allocatedBy e.org .capture e.ref : ℤ) =
      e.heldDeltaMicros - t.releasedMicros e.org e.ref
  | .capture => (t.allocatedBy e.org .capture e.ref : ℤ) = -e.settledDeltaMicros
  | .funding | .release => True

/-- The reference has one lot and one funding entry, both of the amount. -/
def Tables.creditedOnce (t : Tables) (org ref : String) (amount : ℤ) : Prop :=
  ((t.lots.filter fun l => l.key = (org, ref)).map fun l => (l.amountMicros : ℤ)) = [amount] ∧
    (t.ledger.filter fun e => e.key = (org, .funding, ref)).map Entry.settledDeltaMicros = [amount]

namespace Backed

/-- The one entry of a type and reference is what that type moved for it. -/
theorem entryWhere_of_mem (hb : Backed t) {e : Entry} (he : e ∈ t.ledger) :
    t.entryWhere e.type (fun o r => o = e.org ∧ r = e.ref) = e.heldDeltaMicros := by
  refine Table.sumIf_key hb.entry_keys he fun x _ => ?_
  rw [Bool.eq_iff_iff]
  simp only [Bool.and_eq_true, decide_eq_true_eq, Entry.key, Prod.mk.injEq]
  constructor
  · rintro ⟨hty, ho, hr⟩
    exact ⟨ho, hty, hr⟩
  · rintro ⟨ho, hty, hr⟩
    exact ⟨hty, ho, hr⟩

theorem backs (hb : Backed t) {e : Entry} (he : e ∈ t.ledger) : t.backs e := by
  have hsum := hb.entryWhere_of_mem he
  have hheld := hb.held fun o r => o = e.org ∧ r = e.ref
  have hcaptured := hb.captured fun o r => o = e.org ∧ r = e.ref
  have hsplit := heldWhere_split hb.shapes fun o r => o = e.org ∧ r = e.ref
  have hshape := hb.shapes e he
  unfold Tables.backs
  unfold Entry.shape at hshape
  cases htype : e.type with
  | usageDebit => exact hb.usage e he htype
  | funding => exact trivial
  | release => exact trivial
  | hold =>
    simp only [htype] at hsum ⊢
    unfold Tables.releasedMicros Tables.allocatedBy
    omega
  | capture =>
    simp only [htype] at hsum hshape ⊢
    unfold Tables.allocatedBy
    omega

theorem creditedOnce (hb : Backed t) {l : Lot} (hl : l ∈ t.lots) :
    t.creditedOnce l.org l.ref l.amountMicros := by
  obtain ⟨e, he, hk⟩ := hb.credited l hl
  obtain ⟨ho, hty, hr⟩ := Entry.key_eq.mp hk
  obtain ⟨l', hl', hk', hamount⟩ := hb.funded e he hty
  have hsame : l' = l :=
    Table.eq_of_key hb.lot_keys hl' hl (by rw [hk', ho, hr]; rfl)
  constructor
  · have hlots := Table.filter_key hb.lot_keys hl
    have hkey : l.key = (l.org, l.ref) := rfl
    rw [← hkey, hlots]
    rfl
  · have hentries := Table.filter_key hb.entry_keys he
    rw [← hk, hentries, ← hsame, ← hamount]
    rfl

end Backed

/-- **No credit is spent twice.**  In every run whose batches commit on current rows, every
lot is drawn on within its amount less its refunds, every debit entry is backed by
allocations of its amount, every funding reference is credited once with its amount, and a
call that failed has changed nothing. -/
theorem no_double_spend {s : System} (h : wallets.ReachVia (fun s a => spendsCurrent s a) s) :
    (∀ l ∈ s.db.lots, s.db.allocatedTo l.org l.ref +
      s.db.refundSum Refund.debitMicros l.org l.ref ≤ l.amountMicros) ∧
    (∀ e ∈ s.db.ledger, s.db.backs e) ∧
    ((∀ l ∈ s.db.lots, s.db.creditedOnce l.org l.ref l.amountMicros) ∧
      (∀ e ∈ s.db.ledger, e.type = .funding →
        s.db.creditedOnce e.org e.ref e.settledDeltaMicros) ∧
      ∀ i f, s.client i = .finished (.fund f) .ok →
        s.db.creditedOnce f.org f.fundingRef f.amountMicros) ∧
    ∀ i reply, (s.client i).reply = some reply → reply.failed = true → s.changes i = 0 := by
  obtain ⟨hb, -, hknows, hchanges⟩ := spent_of_reachVia h
  refine ⟨fun l hl => ?_, fun e he => hb.backs he,
    ⟨fun l hl => hb.creditedOnce hl, fun e he hty => ?_, fun i f hclient => ?_⟩,
    fun i reply hreply hfailed => hchanges i ?_⟩
  · have hcovered := hb.covered l hl
    unfold Tables.remaining at hcovered
    omega
  · obtain ⟨l, hl, hk, hamount⟩ := hb.funded e he hty
    obtain ⟨ho, hr⟩ := Lot.key_eq.mp hk
    rw [hamount, ← ho, ← hr]
    exact hb.creditedOnce hl
  · have hcredited := hknows i
    rw [hclient] at hcredited
    obtain ⟨⟨l, hl, hk, hmatches⟩, -⟩ : f.Credited s.db := hcredited
    obtain ⟨ho, hr⟩ := Lot.key_eq.mp hk
    simp only [FundCall.lotMatches, decide_eq_true_eq] at hmatches
    rw [← hmatches.2.2.1, ← ho, ← hr]
    exact hb.creditedOnce hl
  · -- a failed call never passed a point after a batch
    cases hclient : s.client i with
    | finished call reply' =>
      rw [hclient, Client.reply, Option.some.injEq] at hreply
      subst hreply
      cases reply' with
      | declined => rfl
      | thrown => rfl
      | ok => cases hfailed
      | blocked => cases hfailed
    | _ =>
      rw [hclient] at hreply
      cases hreply

/-! ### A debit that is declined, and one that is made twice -/

/-- A lot of 100, a usage debit of 70 and one of 50 that finds too little left. -/
def spentRun : List WalletAction :=
  .call 0 (.fund { org := "org", fundingRef := "lot", amountMicros := 100,
                   consumptionClass := .subscription }) :: advance 0 6 0 ++
  .call 1 (.debit { org := "org", kind := .usage, reference := "first", amountMicros := 70 }) ::
    advance 1 4 0 ++
  .call 2 (.debit { org := "org", kind := .usage, reference := "second", amountMicros := 50 }) ::
    advance 2 3 0

theorem no_double_spend_spentRun : ∃ s : System,
    (∃ l ∈ s.db.lots, s.db.allocatedTo l.org l.ref = 70 ∧
      s.db.allocatedTo l.org l.ref + s.db.refundSum Refund.debitMicros l.org l.ref ≤
        l.amountMicros) ∧
    (∃ e ∈ s.db.ledger, e.type = .usageDebit ∧ s.db.backs e) ∧
    (s.client 2).reply = some .declined ∧ s.changes 2 = 0 := by
  obtain ⟨s, hs, hp⟩ := Machine.exists_reachVia_of_run (M := wallets) spendsCurrent spentRun
    (fun s => (s.db.lots.any fun l => s.db.allocatedTo l.org l.ref = 70) &&
      (s.db.ledger.any fun e => e.type = .usageDebit) &&
      decide ((s.client 2).reply = some .declined)) (by decide +kernel)
  simp only [Bool.and_eq_true, List.any_eq_true, decide_eq_true_eq] at hp
  obtain ⟨⟨⟨l, hl, hdrawn⟩, ⟨e, he, hty⟩⟩, hreply⟩ := hp
  obtain ⟨hlots, hbacks, -, hfailed⟩ := no_double_spend hs
  exact ⟨s, ⟨l, hl, hdrawn, hlots l hl⟩, ⟨e, he, hty, hbacks e he⟩, hreply,
    hfailed 2 .declined hreply rfl⟩

/-- Two lots of 100; a debit of 100 and one of 150 are planned under one reference before
either commits.  The second inserts only the 50 that the first does not have. -/
def secondDebit : List WalletAction :=
  .call 0 (.fund { org := "org", fundingRef := "lot 1", amountMicros := 100,
                   consumptionClass := .subscription }) :: advance 0 6 0 ++
  .call 0 (.fund { org := "org", fundingRef := "lot 2", amountMicros := 100,
                   consumptionClass := .subscription }) :: advance 0 6 1 ++
  .call 1 (.debit { org := "org", kind := .usage, reference := "job", amountMicros := 100 }) ::
    advance 1 3 1 ++
  .call 2 (.debit { org := "org", kind := .usage, reference := "job", amountMicros := 150 }) ::
    advance 2 3 1 ++ advance 1 1 1 ++ advance 2 1 1

/-- A run in which a second plan for a reference draws beyond its entry. -/
theorem second_debit : ∃ s, wallets.Reachable s ∧ ∃ e ∈ s.db.ledger, e.type = .usageDebit ∧
    e.settledDeltaMicros = -100 ∧ s.db.allocatedBy e.org .usageDebit e.ref = 150 ∧
      ¬s.db.backs e := by
  obtain ⟨s, hs, hp⟩ := Machine.exists_reachable_of_run (M := wallets) secondDebit
    (fun s => s.db.ledger.any fun e => e.type = .usageDebit ∧ e.settledDeltaMicros = -100 ∧
      s.db.allocatedBy e.org .usageDebit e.ref = 150) (by decide +kernel)
  simp only [List.any_eq_true, decide_eq_true_eq] at hp
  obtain ⟨e, he, hty, hamount, hdrawn⟩ := hp
  refine ⟨s, hs, e, he, hty, hamount, hdrawn, ?_⟩
  unfold Tables.backs
  simp only [hty]
  rw [hdrawn, hamount]
  decide

end Takoserver.Wallet
