import Takoserver.Wallet.Settlement

/-!
# What is debited under a reference

The entry and the allocations of one usage debit.  No statement of the wallet touches them but
a usage debit under the same reference; so what a batch has debited stays.
-/

namespace Takoserver.Wallet

variable {t t' t'' : Tables} {org ref : String}

namespace Tables

variable (t : Tables) (org ref : String)

/-- The entries of a usage debit. -/
def usageLedger : List Entry := t.ledger.filter fun e => decide (e.key = (org, .usageDebit, ref))

/-- The condition on its allocations. -/
def isUsageRow (a : Allocation) : Bool :=
  decide (a.org = org ∧ a.debitType = .usageDebit ∧ a.debitRef = ref)

/-- Its allocations. -/
def usageRows : List Allocation := t.allocations.filter (isUsageRow org ref)

/-- What the ledger has debited under the reference. -/
def debited : ℤ := ((t.usageLedger org ref).map fun e => -e.settledDeltaMicros).sum

/-- What the allocations of the debit add up to. -/
theorem allocatedBy_usage :
    t.allocatedBy org .usageDebit ref = ((t.usageRows org ref).map Allocation.amountMicros).sum := by
  unfold allocatedBy allocatedWhere usageRows
  rw [Table.sumIf_eq_sum_filter]
  congr 2
  refine List.filter_congr fun a _ => ?_
  simp [isUsageRow, Bool.and_left_comm]

end Tables

/-- The debit a client is making. -/
def Client.debit? : Client → Option DebitCall
  | .debiting d _ => some d
  | _ => none

/-- Two states of the wallet have the same rows of a debit. -/
structure SameDebit (t t' : Tables) (org ref : String) : Prop where
  ledger : t'.usageLedger org ref = t.usageLedger org ref
  rows : t'.usageRows org ref = t.usageRows org ref

variable {c : Circumstance} {d : DebitCall} {picks : List Pick}

namespace SameDebit

theorem refl (t : Tables) (org ref : String) : SameDebit t t org ref := ⟨rfl, rfl⟩

theorem trans (h : SameDebit t t' org ref) (h' : SameDebit t' t'' org ref) :
    SameDebit t t'' org ref :=
  ⟨h'.ledger.trans h.ledger, h'.rows.trans h.rows⟩

theorem of_eq (hl : t'.ledger = t.ledger) (ha : t'.allocations = t.allocations) :
    SameDebit t t' org ref := by
  constructor
  · unfold Tables.usageLedger
    rw [hl]
  · unfold Tables.usageRows
    rw [ha]

theorem debited (h : SameDebit t t' org ref) : t'.debited org ref = t.debited org ref := by
  unfold Tables.debited
  rw [h.ledger]

theorem allocatedBy (h : SameDebit t t' org ref) :
    t'.allocatedBy org .usageDebit ref = t.allocatedBy org .usageDebit ref := by
  rw [Tables.allocatedBy_usage, Tables.allocatedBy_usage, h.rows]

/-- An entry of another key leaves the debit. -/
theorem append_entry {e : Entry} (he : e.key ≠ (org, .usageDebit, ref)) :
    SameDebit t { t with ledger := t.ledger ++ [e] } org ref := by
  refine ⟨?_, rfl⟩
  unfold Tables.usageLedger
  rw [List.filter_append]
  simp [he]

theorem insertEntryOrIgnore {e : Entry} (he : e.key ≠ (org, .usageDebit, ref)) :
    SameDebit t (t.insertEntryOrIgnore e) org ref := by
  rcases t.insertEntryOrIgnore_cases e with ⟨-, heq⟩ | ⟨-, heq⟩ <;> rw [heq]
  · exact refl t org ref
  · exact append_entry he

theorem append_allocation {a : Allocation} (ha : Tables.isUsageRow org ref a = false) :
    SameDebit t { t with allocations := t.allocations ++ [a] } org ref := by
  refine ⟨rfl, ?_⟩
  unfold Tables.usageRows
  rw [List.filter_append]
  simp [ha]

theorem of_filter {p : Allocation → Bool} (hl : t'.ledger = t.ledger)
    (ha : t'.allocations = t.allocations.filter p)
    (hp : ∀ a, Tables.isUsageRow org ref a = true → p a = true) : SameDebit t t' org ref := by
  constructor
  · unfold Tables.usageLedger
    rw [hl]
  · unfold Tables.usageRows
    rw [ha, List.filter_filter]
    refine List.filter_congr fun a _ => ?_
    cases h : Tables.isUsageRow org ref a with
    | false => rfl
    | true => rw [hp a h, Bool.and_self]

/-! ### The batches -/

theorem allocate (d : DebitCall) (c : Circumstance) (picks : List Pick)
    (hd : ∀ p, Tables.isUsageRow org ref (d.allocation p) = false) :
    SameDebit t (d.allocate c picks t) org ref := by
  induction picks generalizing t with
  | nil => exact refl t org ref
  | cons p _ ih =>
    rw [DebitCall.allocate_cons]
    refine trans ?_ ih
    unfold Tables.insertAllocationIfCovered
    split
    · exact append_allocation (hd p)
    · exact refl t org ref

theorem fund {f : FundCall} (h : f.batch c t = some t') :
    SameDebit t t' org ref := by
  obtain ⟨l, -, -, -, rfl, -⟩ := FundCall.batch_cases h
  refine trans ?_ (insertEntryOrIgnore (by simp [Entry.key]))
  rcases t.insertLotOrIgnore_cases l with ⟨-, heq⟩ | ⟨-, heq⟩ <;> rw [heq]
  · exact refl t org ref
  · exact of_eq rfl rfl

theorem debit {now : Instant} (hd : ¬(d.kind ≠ .hold ∧ d.org = org ∧ d.reference = ref))
    (h : d.batch picks now c t = some t') : SameDebit t t' org ref := by
  obtain ⟨-, -, rfl⟩ := DebitCall.batch_cases h
  refine (allocate d _ picks fun p => ?_).trans (insertEntryOrIgnore ?_)
  · by_cases hhold : d.kind = .hold
    · simp [Tables.isUsageRow, DebitCall.allocation, DebitCall.type, hhold]
    · refine decide_eq_false fun h => ?_
      exact hd ⟨hhold, h.1, h.2.2⟩
  · by_cases hhold : d.kind = .hold
    · simp [DebitCall.entry, hhold, Entry.key]
    · simp only [DebitCall.entry, hhold, if_false, Entry.key, ne_eq, Prod.mk.injEq, true_and]
      intro h
      exact hd ⟨hhold, h⟩

theorem shrink (s : SettleCall) (p : Pick) : SameDebit t (s.shrink p t) org ref := by
  unfold SettleCall.shrink
  split
  · refine of_filter rfl rfl fun a ha => ?_
    simp only [Tables.isUsageRow, decide_eq_true_eq] at ha
    simp [Allocation.key, ha.2.1]
  refine ⟨rfl, ?_⟩
  unfold Tables.usageRows Tables.updateHold
  -- only hold rows are rewritten, and they stay hold rows
  rw [List.filter_map]
  have hcomp : Tables.isUsageRow org ref ∘ (fun a : Allocation =>
      if a.key = (s.org, .hold, s.reference, p.lotRef) ∧ a.amountMicros = p.previous then
        { a with amountMicros := p.previous - p.amount } else a) =
      Tables.isUsageRow org ref := by
    funext a
    simp only [Function.comp]
    split <;> rfl
  rw [hcomp]
  conv_rhs => rw [← List.map_id (t.allocations.filter (Tables.isUsageRow org ref))]
  refine List.map_congr_left fun a ha => ?_
  have husage := (List.mem_filter.mp ha).2
  simp only [Tables.isUsageRow, decide_eq_true_eq] at husage
  simp [Allocation.key, husage.2.1]

theorem moves {s : SettleCall} (h : s.moves picks t = some t') :
    SameDebit t t' org ref := by
  induction picks generalizing t with
  | nil =>
    simp only [SettleCall.moves, Option.some.injEq] at h
    subst h
    exact refl _ _ _
  | cons p _ ih =>
    simp only [SettleCall.moves, Option.bind_eq_some_iff] at h
    obtain ⟨_, hmove, h⟩ := h
    refine trans ?_ (ih h)
    unfold SettleCall.move at hmove
    split at hmove
    · cases hmove
      exact shrink s p
    · obtain ⟨-, -, -, rfl⟩ := Tables.insertAllocation_some hmove
      exact (shrink s p).trans (append_allocation (by simp [Tables.isUsageRow]))

theorem settle {s : SettleCall} {plan : SettlePlan s.amountMicros} (h : s.batch plan c t = some t') :
    SameDebit t t' org ref := by
  obtain ⟨_, hmoves, -, -, rfl⟩ := SettleCall.batch_cases h
  refine (moves hmoves).trans (append_entry ?_)
  unfold SettleCall.entry
  cases s.type <;> simp [Entry.key]

theorem refund {r : RefundCall} {plan : RefundPlan} (h : r.batch plan c t = some t') :
    SameDebit t t' org ref := by
  obtain ⟨-, _, _, hclose, -, -, -, -, -, -, hledger, hallocations, -⟩ :=
    RefundCall.batch_cases h
  refine trans ?_ (of_eq hledger hallocations)
  refine RefundCall.closeHolds_induction (P := fun u => SameDebit t u org ref)
    (fun closure u u' hu hc => ?_) hclose (refl t org ref)
  obtain ⟨-, -, rfl⟩ := RefundCall.closeHold_cases hc
  have hentry : SameDebit u
      { u with ledger := u.ledger ++ [⟨r.org, .release, closure.1, 0, -closure.2⟩] } org ref :=
    append_entry (by simp [Entry.key])
  refine hu.trans (hentry.trans ?_)
  refine of_filter rfl rfl fun a ha => ?_
  simp only [Tables.isUsageRow, decide_eq_true_eq] at ha
  simp [ha.2.1]

/-- What a statement of a call leaves of the debits of others. -/
theorem step (t : Tables) (c : Circumstance) {client : Client}
    (hclient : ∀ d, client.debit? = some d →
      ¬(d.kind ≠ .hold ∧ d.org = org ∧ d.reference = ref)) :
    SameDebit t (client.step t c).2 org ref := by
  rcases step_cases t c client with heq | ⟨f, -, hb⟩ | ⟨d, _, _, hd, hb⟩ |
    ⟨s, plan, -, hb⟩ | ⟨r, plan, -, hb⟩
  · rw [heq]
    exact refl t org ref
  · exact fund hb
  · exact debit (hclient d (by rw [hd]; rfl)) hb
  · exact settle hb
  · exact refund hb

end SameDebit

theorem debit?_step (t : Tables) (c : Circumstance) (client : Client) (d : DebitCall)
    (h : (client.step t c).1.debit? = some d) : client.debit? = some d := by
  cases client with
  | idle => exact h
  | finished => exact h
  | debiting d' stage =>
    cases stage <;>
      (simp only [Client.step, DebitCall.step] at h
       first
       | exact h
       | (split at h <;> first
          | exact h
          | cases h
          | (split at h <;> first | exact h | cases h)))
  | funding f stage =>
    exfalso
    cases stage <;>
      (simp only [Client.step, FundCall.step] at h
       first
       | cases h
       | (split at h <;> first | cases h | (split at h <;> cases h)))
  | settling s stage =>
    exfalso
    have hcommits : ∀ plan, (s.commits plan).debit? = none := by
      intro plan
      cases plan <;> rfl
    cases stage <;>
      (simp only [Client.step, SettleCall.step] at h
       first
       | cases h
       | (split at h <;> first
          | cases h
          | (rw [hcommits] at h; cases h)
          | (split at h <;> first | cases h | (rw [hcommits] at h; cases h))))
  | refunding r stage =>
    exfalso
    cases stage <;>
      (simp only [Client.step, RefundCall.step] at h
       first
       | cases h
       | (split at h <;> first | cases h | (split at h <;> cases h)))

/-! ### A debit under an unused reference -/

theorem usageLedger_of_unused (h : d.unused t = true) :
    t.usageLedger d.org d.reference = [] := by
  unfold DebitCall.unused at h
  rw [Bool.and_eq_true, Option.isNone_iff_eq_none] at h
  refine List.filter_eq_nil_iff.mpr fun e he => ?_
  simpa using Table.find_none.mp h.1 e he

theorem usageRows_of_unused (h : d.unused t = true) :
    t.usageRows d.org d.reference = [] := by
  unfold DebitCall.unused at h
  rw [Bool.and_eq_true, Bool.not_eq_true', List.any_eq_false] at h
  refine List.filter_eq_nil_iff.mpr fun a ha => ?_
  simpa [Tables.isUsageRow] using h.2 a ha

theorem debited_of_unused (h : d.unused t = true) :
    t.debited d.org d.reference = 0 ∧ t.allocatedBy d.org .usageDebit d.reference = 0 := by
  rw [Tables.allocatedBy_usage, usageRows_of_unused h]
  unfold Tables.debited
  rw [usageLedger_of_unused h]
  exact ⟨rfl, rfl⟩

/-- A roll-up's debit debits its amount. -/
theorem debited_of_batch {now : Instant} (hkind : d.kind = .rollUp)
    (h : d.batch picks now c t = some t') :
    t'.debited d.org d.reference = d.amountMicros ∧
      t'.allocatedBy d.org .usageDebit d.reference = d.amountMicros := by
  obtain ⟨hunused, hsum, rfl⟩ := DebitCall.batch_cases h
  have hunused := hunused hkind
  have hentry : d.entry = ⟨d.org, .usageDebit, d.reference, -d.amountMicros, 0⟩ := by
    simp [DebitCall.entry, hkind]
  have htype : d.type = .usageDebit := by simp [DebitCall.type, hkind]
  -- the allocations come before the entry, and no entry is there yet
  have hledger : (d.allocate { c with now := now } picks t).ledger = t.ledger := by
    have key : ∀ (picks : List Pick) (t : Tables),
        (d.allocate { c with now := now } picks t).ledger = t.ledger := by
      intro picks
      induction picks with
      | nil => exact fun _ => rfl
      | cons _ _ ih =>
        intro t
        rw [DebitCall.allocate_cons, ih]
        unfold Tables.insertAllocationIfCovered
        split <;> rfl
    exact key picks t
  have hfree : (d.allocate { c with now := now } picks t).usageLedger d.org d.reference = [] := by
    unfold Tables.usageLedger
    rw [hledger]
    exact usageLedger_of_unused hunused
  rcases (d.allocate { c with now := now } picks t).insertEntryOrIgnore_cases d.entry with
    ⟨hthere, -⟩ | ⟨-, heq⟩
  · obtain ⟨e, hfound⟩ := Option.isSome_iff_exists.mp hthere
    obtain ⟨he, hkey⟩ := Tables.entry_some hfound
    rw [hentry] at hkey
    have : e ∈ (d.allocate { c with now := now } picks t).usageLedger d.org d.reference :=
      List.mem_filter.mpr ⟨he, by simpa using hkey⟩
    rw [hfree] at this
    cases this
  · rw [heq]
    constructor
    · unfold Tables.debited Tables.usageLedger at *
      rw [List.filter_append, hfree, hentry]
      simp [Entry.key]
    · rw [← htype]
      exact hsum

end Takoserver.Wallet
