import Takoserver.Wallet.Settlement

/-!
# Lots and what is drawn on them

No lot is drawn on beyond its amount, every debit in the ledger has its
allocations, and a funding reference has one lot and one entry of the same
amount.  A batch keeps all of this when it commits on current rows: an
allocation checks its lot row by row, a settlement moves amounts within a lot,
and a refund's guards show that what its plan read still stands.
-/

namespace Takoserver.Wallet

/-- Every allocation is of a lot, and no lot is drawn on beyond its amount less its refunds. -/
structure Covered (t : Tables) : Prop where
  lot_keys : (t.lots.map Lot.key).Nodup
  lot_of_allocation : ∀ a ∈ t.allocations, ∃ l ∈ t.lots, l.key = (a.org, a.lotRef)
  covered : ∀ l ∈ t.lots, 0 ≤ t.remaining l

/-- The ledger, the lots and the allocations agree. -/
structure Backed (t : Tables) : Prop extends Settled t, Covered t where
  lot_of_refund : ∀ r ∈ t.refunds, 0 < r.debitMicros → ∃ l ∈ t.lots, l.key = (r.org, r.fundingRef)
  usage : ∀ e ∈ t.ledger, e.type = .usageDebit →
    (t.allocatedBy e.org .usageDebit e.ref : ℤ) = -e.settledDeltaMicros
  funded : ∀ e ∈ t.ledger, e.type = .funding →
    ∃ l ∈ t.lots, l.key = (e.org, e.ref) ∧ e.settledDeltaMicros = l.amountMicros
  credited : ∀ l ∈ t.lots, ∃ e ∈ t.ledger, e.key = (l.org, .funding, l.ref)

variable {t t' : Tables}

/-! ### Allocations and their lots -/

theorem remaining_le_of_allocatedTo {l : Lot} (hr : t'.refunds = t.refunds)
    (h : t'.allocatedTo l.org l.ref ≤ t.allocatedTo l.org l.ref) :
    t.remaining l ≤ t'.remaining l := by
  have hdebit : t'.refundSum Refund.debitMicros l.org l.ref =
      t.refundSum Refund.debitMicros l.org l.ref := by
    unfold Tables.refundSum
    rw [hr]
  unfold Tables.remaining
  omega

/-- A row inserted where its lot has the amount left leaves every lot covered. -/
theorem Covered.insertAllocationIfCovered (h : Covered t) (admits : Lot → Bool)
    (a : Allocation) : Covered (t.insertAllocationIfCovered admits a) := by
  unfold Tables.insertAllocationIfCovered
  split
  · next htakes =>
    obtain ⟨-, l₀, hl₀, hamount⟩ := Tables.takes_true htakes
    obtain ⟨hmem₀, horg₀, href₀⟩ := Tables.lot_some hl₀
    refine ⟨h.lot_keys, ?_, ?_⟩
    · intro x hx
      rcases Table.mem_insert.mp hx with hx | rfl
      · exact h.lot_of_allocation x hx
      · exact ⟨l₀, hmem₀, Lot.key_eq.mpr ⟨horg₀, href₀⟩⟩
    · intro l hl
      have hbefore := h.covered l hl
      have hsum : Tables.allocatedTo { t with allocations := t.allocations ++ [a] } l.org l.ref =
          t.allocatedTo l.org l.ref +
            if a.org = l.org ∧ a.lotRef = l.ref then a.amountMicros else 0 := by
        simp [Tables.allocatedTo]
      have hdebit : Tables.refundSum { t with allocations := t.allocations ++ [a] }
          Refund.debitMicros l.org l.ref = t.refundSum Refund.debitMicros l.org l.ref := rfl
      unfold Tables.remaining at hbefore hamount ⊢
      rw [hsum, hdebit]
      split
      · next hlot =>
        -- the row draws on this lot, which its statement checked
        obtain rfl : l = l₀ := Table.eq_of_key h.lot_keys hl hmem₀
          (Lot.key_eq.mpr ⟨hlot.1.symm.trans horg₀.symm, hlot.2.symm.trans href₀.symm⟩)
        push_cast
        omega
      · push_cast
        omega
  · exact h

theorem Covered.allocate (h : Covered t) (d : DebitCall) (c : Circumstance) (picks : List Pick) :
    Covered (d.allocate c picks t) := by
  induction picks generalizing t with
  | nil => exact h
  | cons _ _ ih =>
    rw [DebitCall.allocate_cons]
    exact ih (h.insertAllocationIfCovered _ _)

variable {s : SettleCall} {c : Circumstance}

theorem shrink_mem {p : Pick} {a : Allocation} (ha : a ∈ (s.shrink p t).allocations) :
    ∃ b ∈ t.allocations, b.key = a.key ∧
      (p.amount ≤ p.previous → 0 < b.amountMicros → 0 < a.amountMicros) := by
  unfold SettleCall.shrink at ha
  split at ha
  · exact ⟨a, List.mem_of_mem_filter ha, rfl, fun _ h => h⟩
  · next hne =>
    obtain ⟨b, hb, rfl⟩ := List.mem_map.mp ha
    refine ⟨b, hb, ?_⟩
    split
    · exact ⟨rfl, fun hle _ => Nat.sub_pos_of_lt (Nat.lt_of_le_of_ne hle hne)⟩
    · exact ⟨rfl, fun _ h => h⟩

/-- A row after a settlement's moves was there before, under its key, or is a capture row. -/
theorem moves_mem {picks : List Pick} (h : s.moves picks t = some t') {a : Allocation}
    (ha : a ∈ t'.allocations) :
    (∃ b ∈ t.allocations, b.key = a.key ∧
        ((∀ p ∈ picks, p.amount ≤ p.previous) → 0 < b.amountMicros → 0 < a.amountMicros)) ∨
      a.debitType = .capture ∧ (t.lot a.org a.lotRef).isSome = true ∧
        ((∀ p ∈ picks, p.amount ≤ p.previous) → 0 < a.amountMicros) := by
  induction picks generalizing t with
  | nil =>
    cases h
    exact Or.inl ⟨a, ha, rfl, fun _ h => h⟩
  | cons p picks ih =>
    obtain ⟨t₁, hmove, h⟩ := Option.bind_eq_some_iff.mp h
    have hlots : (t₁.lot a.org a.lotRef).isSome = (t.lot a.org a.lotRef).isSome := by
      unfold Tables.lot
      rw [(SettleCall.move_same hmove).1]
    rcases ih h with ⟨b, hb, hk, hpos⟩ | ⟨hty, hlot, hpos⟩
    · replace hpos := fun hle : ∀ q ∈ p :: picks, q.amount ≤ q.previous =>
        hpos fun q hq => hle q (List.mem_cons_of_mem _ hq)
      have hshrunk : b ∈ (s.shrink p t).allocations → ∃ b ∈ t.allocations, b.key = a.key ∧
          ((∀ q ∈ p :: picks, q.amount ≤ q.previous) →
            0 < b.amountMicros → 0 < a.amountMicros) := by
        intro hb
        obtain ⟨b', hb', hk', hpos'⟩ := shrink_mem hb
        exact ⟨b', hb', hk'.trans hk, fun hle h => hpos hle (hpos' (hle p List.mem_cons_self) h)⟩
      unfold SettleCall.move at hmove
      split at hmove
      · cases hmove
        exact Or.inl (hshrunk hb)
      · obtain ⟨-, hlot, hamount, rfl⟩ := Tables.insertAllocation_some hmove
        rcases List.mem_append.mp hb with hb | hb
        · exact Or.inl (hshrunk hb)
        · rw [List.mem_singleton.mp hb] at hk hpos
          obtain ⟨ho, hty, -, hr⟩ := Allocation.key_eq.mp hk.symm
          refine Or.inr ⟨hty, ?_, fun hle => hpos hle hamount⟩
          rw [← hlots, ho, hr]
          exact hlot
    · exact Or.inr ⟨hty, by rwa [hlots] at hlot,
        fun hle => hpos fun q hq => hle q (List.mem_cons_of_mem _ hq)⟩

theorem moves_lot_of_allocation {picks : List Pick} (h : s.moves picks t = some t')
    (hl : ∀ a ∈ t.allocations, ∃ l ∈ t.lots, l.key = (a.org, a.lotRef)) :
    ∀ a ∈ t'.allocations, ∃ l ∈ t.lots, l.key = (a.org, a.lotRef) := by
  intro a ha
  rcases moves_mem h ha with ⟨b, hb, hk, -⟩ | ⟨-, hlot, -⟩
  · obtain ⟨ho, -, -, hr⟩ := Allocation.key_eq.mp hk
    obtain ⟨l, hlm, hlk⟩ := hl b hb
    exact ⟨l, hlm, by rw [hlk, ho, hr]⟩
  · obtain ⟨l, hlot⟩ := Option.isSome_iff_exists.mp hlot
    obtain ⟨hmem, ho, hr⟩ := Tables.lot_some hlot
    exact ⟨l, hmem, Lot.key_eq.mpr ⟨ho, hr⟩⟩

namespace Backed

/-! ### One batch -/

theorem fund (hb : Backed t) {f : FundCall} (h : f.batch c t = some t') :
    Backed t' := by
  have hsettled := hb.toSettled.fund h
  obtain ⟨l, horg, href, hamount, rfl, -⟩ := FundCall.batch_cases h
  have hkey : l.key = (f.org, f.fundingRef) := Lot.key_eq.mpr ⟨horg, href⟩
  let e : Entry := ⟨f.org, .funding, f.fundingRef, f.amountMicros, 0⟩
  rcases t.insertLotOrIgnore_cases l with ⟨hlot, heq⟩ | ⟨hfresh, heq⟩ <;> rw [heq] at hsettled ⊢
  · -- the lot is there, so its entry is, and both inserts are ignored
    obtain ⟨l₀, hl₀⟩ := Option.isSome_iff_exists.mp hlot
    obtain ⟨hmem₀, ho₀, hr₀⟩ := Tables.lot_some hl₀
    obtain ⟨e₀, he₀, hk₀⟩ := hb.credited l₀ hmem₀
    rcases t.insertEntryOrIgnore_cases e with ⟨-, hins⟩ | ⟨hfree, -⟩
    · rw [hins]
      exact hb
    · refine absurd ?_ (hfree e₀ he₀)
      rw [hk₀, ho₀, hr₀, horg, href]
      rfl
  · have hnone : ∀ e' ∈ t.ledger, e'.key ≠ e.key := by
      intro e' he' hk
      obtain ⟨ho, hty, hr⟩ := Entry.key_eq.mp hk
      obtain ⟨l₀, hl₀, hk₀, -⟩ := hb.funded e' he' hty
      refine hfresh l₀ hl₀ ?_
      rw [hk₀, ho, hr, hkey]
    rcases Tables.insertEntryOrIgnore_cases { t with lots := t.lots ++ [l] } e with
      ⟨hsome, -⟩ | ⟨-, hins⟩
    · obtain ⟨e₀, he₀⟩ := Option.isSome_iff_exists.mp hsome
      exact absurd (Tables.entry_some he₀).2 (hnone e₀ (Tables.entry_some he₀).1)
    rw [hins] at hsettled ⊢
    have hmem : ∀ l₀ ∈ t.lots, l₀ ∈ t.lots ++ [l] := fun _ h => List.mem_append_left _ h
    refine ⟨hsettled, ⟨Table.nodup_insert hb.lot_keys hfresh, ?_, ?_⟩, ?_, ?_, ?_, ?_⟩
    · intro a ha
      obtain ⟨l₀, hl₀, hk₀⟩ := hb.lot_of_allocation a ha
      exact ⟨l₀, hmem l₀ hl₀, hk₀⟩
    · intro x hx
      rcases List.mem_append.mp hx with hx | hx
      · exact hb.covered x hx
      -- nothing is drawn on a lot that was not there
      obtain rfl := List.mem_singleton.mp hx
      have hdrawn : t.allocatedTo x.org x.ref = 0 := by
        refine Table.sumIf_eq_zero fun a ha hp => ?_
        rw [decide_eq_true_eq] at hp
        obtain ⟨l₀, hl₀, hk₀⟩ := hb.lot_of_allocation a ha
        exact absurd (by rw [hk₀, hp.1, hp.2]; rfl) (hfresh l₀ hl₀)
      have hrefunded : t.refundSum Refund.debitMicros x.org x.ref = 0 := by
        refine Table.sumIf_eq_zero fun r hr hp => ?_
        rw [decide_eq_true_eq] at hp
        by_contra hpos
        obtain ⟨l₀, hl₀, hk₀⟩ := hb.lot_of_refund r hr (Nat.pos_of_ne_zero hpos)
        exact absurd (by rw [hk₀, hp.1, hp.2]; rfl) (hfresh l₀ hl₀)
      show (0 : ℤ) ≤ x.amountMicros - t.allocatedTo x.org x.ref -
        t.refundSum Refund.debitMicros x.org x.ref
      rw [hdrawn, hrefunded]
      omega
    · intro r hr hpos
      obtain ⟨l₀, hl₀, hk₀⟩ := hb.lot_of_refund r hr hpos
      exact ⟨l₀, hmem l₀ hl₀, hk₀⟩
    · intro e' he' hty
      rcases List.mem_append.mp he' with he' | he'
      · exact hb.usage e' he' hty
      · rw [List.mem_singleton.mp he'] at hty
        cases hty
    · intro e' he' hty
      rcases List.mem_append.mp he' with he' | he'
      · obtain ⟨l₀, hl₀, hk₀⟩ := hb.funded e' he' hty
        exact ⟨l₀, hmem l₀ hl₀, hk₀⟩
      · rw [List.mem_singleton.mp he']
        exact ⟨l, by simp, hkey, by rw [hamount]⟩
    · intro l₀ hl₀
      rcases Table.mem_insert.mp hl₀ with hl₀ | rfl
      · obtain ⟨e₀, he₀, hk₀⟩ := hb.credited l₀ hl₀
        exact ⟨e₀, List.mem_append_left _ he₀, hk₀⟩
      · exact ⟨e, by simp, Entry.key_eq.mpr ⟨horg.symm, rfl, href.symm⟩⟩

/-- A debit keeps the books backed. -/
theorem debit (hb : Backed t) {d : DebitCall} {picks : List Pick} {now : Instant}
    (h : d.batch picks now c t = some t')
    (hidle : d.recorded t = true → d.idle { c with now := now } picks t = true) :
    Backed t' := by
  have hsettled := hb.toSettled.debit h fun _ => hidle
  obtain ⟨-, hsum, rfl⟩ := DebitCall.batch_cases h
  have hcovered := hb.toCovered.allocate d { c with now := now } picks
  obtain ⟨_, heq, hrows, -⟩ :=
    DebitCall.allocate_cases (d := d) { c with now := now } picks t hb.allocation_keys
  have hkey : d.entry.key = (d.org, d.entryType, d.reference) := by
    unfold DebitCall.entry DebitCall.entryType
    split <;> rfl
  obtain ⟨horg, htype, href⟩ := Entry.key_eq.mp hkey
  -- recorded before, it allocates nothing; else both rows are new
  rcases Tables.insertEntryOrIgnore_cases (d.allocate { c with now := now } picks t) d.entry with
    ⟨hrec, hins⟩ | ⟨hfree, hins⟩
  · have hrec' : d.recorded t = true := by
      rw [heq, horg, htype, href] at hrec
      exact hrec
    rw [hins, DebitCall.allocate_of_idle (hidle hrec')]
    exact hb
  · rw [hins] at hsettled ⊢
    rw [heq] at hsettled hcovered hsum hfree ⊢
    refine ⟨hsettled, ⟨hcovered.lot_keys, hcovered.lot_of_allocation, hcovered.covered⟩,
      hb.lot_of_refund, ?_, ?_, ?_⟩
    · intro e he hty
      have happend :=
        Settled.allocatedWhere_append hrows t .usageDebit fun o r => o = e.org ∧ r = e.ref
      rcases List.mem_append.mp he with he | he
      · -- an entry of another reference, or of another type
        have hne : (decide (d.type = .usageDebit) &&
            decide (d.org = e.org ∧ d.reference = e.ref)) = false := by
          rw [Bool.and_eq_false_iff, decide_eq_false_iff_not, decide_eq_false_iff_not]
          by_cases hkind : d.kind = .hold
          · left
            simp [DebitCall.type, hkind]
          · right
            rintro ⟨ho, hr⟩
            refine hfree e he ?_
            rw [hkey, Entry.key_eq]
            exact ⟨ho.symm, by simp [DebitCall.entryType, hkind, hty], hr.symm⟩
        rw [hne, if_neg (by simp), add_zero] at happend
        rw [← hb.usage e he hty]
        exact congrArg Nat.cast happend
      · rw [List.mem_singleton.mp he] at hty ⊢
        have hkind : d.kind ≠ .hold := by
          intro hk
          simp [DebitCall.entry, hk] at hty
        have hdtype : d.type = .usageDebit := by simp [DebitCall.type, hkind]
        have hamount : d.entry.settledDeltaMicros = -(d.amountMicros : ℤ) := by
          simp [DebitCall.entry, hkind]
        rw [hdtype] at hsum
        rw [horg, href, hamount, neg_neg]
        exact congrArg Nat.cast hsum
    · intro e he hty
      rcases List.mem_append.mp he with he | he
      · exact hb.funded e he hty
      · rw [List.mem_singleton.mp he] at hty
        unfold DebitCall.entry at hty
        split at hty <;> cases hty
    · intro l hl
      obtain ⟨e, he, hk⟩ := hb.credited l hl
      exact ⟨e, List.mem_append_left _ he, hk⟩

/-- An entry that is neither a funding nor a usage debit, with allocations that draw no more
on any lot and leave the usage debits theirs. -/
theorem append_settlement (hb : Backed t) (hs : Settled t') {e : Entry} (hlots : t'.lots = t.lots)
    (hrefunds : t'.refunds = t.refunds) (hledger : t'.ledger = t.ledger ++ [e])
    (htype : e.type ≠ .funding ∧ e.type ≠ .usageDebit)
    (hlot : ∀ a ∈ t'.allocations, ∃ l ∈ t.lots, l.key = (a.org, a.lotRef))
    (hdrawn : ∀ org ref, t'.allocatedTo org ref ≤ t.allocatedTo org ref)
    (husage : ∀ org ref, t'.allocatedBy org .usageDebit ref = t.allocatedBy org .usageDebit ref) :
    Backed t' := by
  refine ⟨hs, ⟨?_, ?_, ?_⟩, ?_, ?_, ?_, ?_⟩
  · rw [hlots]
    exact hb.lot_keys
  · rw [hlots]
    exact hlot
  · intro l hl
    rw [hlots] at hl
    exact (hb.covered l hl).trans (remaining_le_of_allocatedTo hrefunds (hdrawn l.org l.ref))
  · rw [hlots, hrefunds]
    exact hb.lot_of_refund
  · intro x hx hty
    rw [hledger] at hx
    rcases List.mem_append.mp hx with hx | hx
    · rw [husage]
      exact hb.usage x hx hty
    · rw [List.mem_singleton.mp hx] at hty
      exact absurd hty htype.2
  · intro x hx hty
    rw [hledger] at hx
    rw [hlots]
    rcases List.mem_append.mp hx with hx | hx
    · exact hb.funded x hx hty
    · rw [List.mem_singleton.mp hx] at hty
      exact absurd hty htype.1
  · intro l hl
    rw [hlots] at hl
    rw [hledger]
    obtain ⟨x, hx, hk⟩ := hb.credited l hl
    exact ⟨x, List.mem_append_left _ hx, hk⟩

/-- A settlement keeps the books backed. -/
theorem settle (hb : Backed t) {plan : SettlePlan s.amountMicros}
    (hpicks : (plan.selection.picks.map Pick.lotRef).Nodup)
    (hle : ∀ p ∈ plan.selection.picks, p.amount ≤ p.previous)
    (hcurrent : s.current plan.selection.picks t = true) (h : s.batch plan c t = some t') :
    Backed t' := by
  have hsettled := hb.toSettled.settle hpicks hle hcurrent h
  obtain ⟨t₁, hmoves, -, -, rfl⟩ := SettleCall.batch_cases h
  obtain ⟨hlots, hledger, hrefunds, -⟩ := SettleCall.moves_same hmoves
  obtain ⟨-, hsum⟩ := SettleCall.moves_spec hb.allocation_keys hpicks hle hcurrent hmoves
  refine hb.append_settlement (e := s.entry) hsettled hlots hrefunds ?_ ?_
    (fun a ha => moves_lot_of_allocation hmoves hb.lot_of_allocation a ha) ?_ ?_
  · rw [hledger]
  · unfold SettleCall.entry
    cases s.type <;> simp
  · -- a pick's hold row and capture row are of the same lot
    intro org ref
    have hq : t₁.allocatedTo org ref + _ = t.allocatedTo org ref + _ :=
      hsum fun k => k.1 = org ∧ k.2.2.2 = ref
    have hle' : Table.sumIf (fun p => decide (s.type = .capture ∧
        decide ((s.captureKey p).1 = org ∧ (s.captureKey p).2.2.2 = ref) = true)) Pick.amount
          plan.selection.picks ≤
        Table.sumIf (fun p => decide ((s.holdKey p).1 = org ∧ (s.holdKey p).2.2.2 = ref))
          Pick.amount plan.selection.picks := by
      refine Table.sumIf_le_of_imp fun p _ hp => ?_
      simp only [decide_eq_true_eq] at hp ⊢
      exact hp.2
    show t₁.allocatedTo org ref ≤ t.allocatedTo org ref
    omega
  · intro org ref
    have hq : t₁.allocatedBy org .usageDebit ref + _ = t.allocatedBy org .usageDebit ref + _ :=
      hsum fun k => decide (k.2.1 = .usageDebit) && decide (k.1 = org ∧ k.2.2.1 = ref)
    have hnone : ∀ f : Pick → Bool, (∀ p, f p = false) →
        Table.sumIf f Pick.amount plan.selection.picks = 0 := fun f hf =>
      Table.sumIf_eq_zero fun p _ hp => by simp [hf p] at hp
    rw [hnone _ fun p => by simp [SettleCall.holdKey],
      hnone _ fun p => by simp [SettleCall.captureKey], add_zero, add_zero] at hq
    exact hq

theorem closeHold (hb : Backed t) {r : RefundCall} {closure : String × ℕ}
    (h : r.closeHold closure t = some t') :
    Backed t' ∧ t'.lots = t.lots ∧ t'.refunds = t.refunds := by
  have hsettled := hb.toSettled.closeHold h
  obtain ⟨-, -, rfl⟩ := RefundCall.closeHold_cases h
  refine ⟨hb.append_settlement hsettled rfl rfl rfl (by simp) ?_ ?_ ?_, rfl, rfl⟩
  · intro a ha
    exact hb.lot_of_allocation a (List.mem_of_mem_filter ha)
  · intro org ref
    refine (Table.sumIf_filter _ t.allocations).trans_le (Table.sumIf_le_of_imp fun a _ ha => ?_)
    rw [Bool.and_eq_true] at ha
    exact ha.2
  · intro org ref
    refine (Table.sumIf_filter _ t.allocations).trans (Table.sumIf_congr fun a _ => ?_)
    by_cases hty : a.debitType = .usageDebit <;> simp [hty]

end Backed

/-! ### What a refund knows -/

/-- What a refund read of the refunds before it: unless one came between, it still stands. -/
def PriorRefunds.Stands (prior : PriorRefunds) (r : RefundCall) (t : Tables) : Prop :=
  prior.refunded ≤ t.refundSum Refund.amountMicros r.org r.fundingRef ∧
    (t.refundSum Refund.amountMicros r.org r.fundingRef = prior.refunded →
      t.refundSum Refund.debitMicros r.org r.fundingRef = prior.debited)

/-- A refund's plan stays within the grant, and the lot it is of has the grant's amount. -/
structure RefundPlan.Sound (plan : RefundPlan) (r : RefundCall) (t : Tables) : Prop where
  prior : plan.prior.Stands r t
  within : plan.spent + plan.prior.debited + plan.debit ≤ r.grantMicros
  lot : r.grantMicros = 0 ∨
    ∃ l ∈ t.lots, l.key = (r.org, r.fundingRef) ∧ l.amountMicros = r.grantMicros

/-- A refund keeps the books backed. -/
theorem Backed.refund (hb : Backed t) {r : RefundCall} {plan : RefundPlan} (hsound : plan.Sound r t)
    (h : r.batch plan c t = some t') : Backed t' := by
  have hsettled := hb.toSettled.refund h
  obtain ⟨hamount, t₁, _, hclose, hconsistent, horg, href, -, hdebit, hlots, hledger,
    hallocations, hrefunds⟩ := RefundCall.batch_cases h
  obtain ⟨hb₁, hlots₁, hrefunds₁⟩ :=
    RefundCall.closeHolds_induction (P := fun u => Backed u ∧ u.lots = t.lots ∧
      u.refunds = t.refunds)
      (fun _ _ _ ⟨hu, hl, hr⟩ hc =>
        have ⟨hu', hl', hr'⟩ := hu.closeHold hc
        ⟨hu', hl'.trans hl, hr'.trans hr⟩)
      hclose ⟨hb, rfl, rfl⟩
  have hdebited : t₁.refundSum Refund.debitMicros r.org r.fundingRef = plan.prior.debited := by
    unfold Tables.refundSum
    rw [hrefunds₁]
    exact hsound.prior.2 hamount
  have hdrawn : t₁.allocatedTo r.org r.fundingRef = plan.spent := by
    -- no hold is left on the lot, so everything drawn on it is spent
    simp only [RefundCall.consistent, Bool.and_eq_true, Bool.not_eq_true', List.any_eq_false,
      decide_eq_true_eq] at hconsistent
    rw [← hconsistent.2]
    refine Table.sumIf_congr fun a ha => ?_
    have hnohold := hconsistent.1 a ha
    congr 1
    simp only [decide_eq_true_eq, eq_iff_iff]
    constructor
    · rintro ⟨ho, hl⟩
      refine ⟨ho, hl, ?_⟩
      cases hty : a.debitType with
      | hold => exact absurd ⟨ho, hl, hty⟩ hnohold
      | capture => simp
      | usageDebit => simp
    · rintro ⟨ho, hl, -⟩
      exact ⟨ho, hl⟩
  have hto : ∀ org ref, t'.allocatedTo org ref = t₁.allocatedTo org ref := by
    intro org ref
    unfold Tables.allocatedTo
    rw [hallocations]
  have hsum : ∀ org ref, t'.refundSum Refund.debitMicros org ref =
      t₁.refundSum Refund.debitMicros org ref +
        if r.org = org ∧ r.fundingRef = ref then plan.debit else 0 := by
    intro org ref
    unfold Tables.refundSum
    rw [hrefunds, Table.sumIf_append, Table.sumIf_cons, Table.sumIf_nil, add_zero, horg, href,
      hdebit]
    simp only [decide_eq_true_eq]
  refine ⟨hsettled, ⟨?_, ?_, ?_⟩, ?_, ?_, ?_, ?_⟩
  · rw [hlots]
    exact hb₁.lot_keys
  · rw [hlots, hallocations]
    exact hb₁.lot_of_allocation
  · intro l hl
    rw [hlots] at hl
    have hbefore := hb₁.covered l hl
    unfold Tables.remaining at hbefore ⊢
    rw [hto, hsum]
    split
    · next hlot =>
      rw [← hlot.1, ← hlot.2, hdrawn, hdebited] at hbefore ⊢
      have hwithin := hsound.within
      rcases hsound.lot with _ | ⟨l₀, _, hk₀, hgrant⟩
      · push_cast
        omega
      · have hsame : l = l₀ := by
          refine Table.eq_of_key hb₁.lot_keys hl (by rwa [hlots₁]) ?_
          rw [hk₀]
          exact Lot.key_eq.mpr ⟨hlot.1.symm, hlot.2.symm⟩
        rw [hsame, hgrant]
        push_cast
        omega
    · push_cast
      omega
  · intro x hx hxpos
    rw [hrefunds] at hx
    rw [hlots]
    rcases List.mem_append.mp hx with hx | hx
    · exact hb₁.lot_of_refund x hx hxpos
    · rw [List.mem_singleton.mp hx] at hxpos ⊢
      rcases hsound.lot with _ | ⟨l₀, _, hk₀, -⟩
      · have hwithin := hsound.within
        omega
      · exact ⟨l₀, by rwa [hlots₁], by rw [hk₀, horg, href]⟩
  · intro e he hty
    rw [hledger] at he
    have husage := hb₁.usage e he hty
    unfold Tables.allocatedBy Tables.allocatedWhere at husage ⊢
    rw [hallocations]
    exact husage
  · rw [hledger, hlots]
    exact hb₁.funded
  · rw [hledger, hlots]
    exact hb₁.credited

end Takoserver.Wallet
