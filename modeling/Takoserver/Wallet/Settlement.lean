import Takoserver.Wallet.Batches

/-!
# Holds and their settlement

Every reference's hold, captures and releases add up: the ledger holds for it
exactly what hold allocations are left, and what was captured is what capture
allocations stand for.  One batch keeps this unless it commits on rows that are
no longer what its plan read: a hold that inserts allocations for a reference
already in the ledger, or a settlement one of whose selected hold rows is gone.
Neither is excluded by the guards of the batch, which compare sums only.
-/

namespace Takoserver.Wallet

namespace Tables

variable (t : Tables)

/-- `SUM(held_delta_micros)` over the entries of one type of the references `q` picks. -/
def entryWhere (type : EntryType) (q : String → String → Bool) : ℤ :=
  Table.sumIf (fun e => e.type = type && q e.org e.ref) Entry.heldDeltaMicros t.ledger

/-- The amount originally held for a reference. -/
def heldMicros (org ref : String) : ℤ := t.entryWhere .hold fun o r => o = org ∧ r = ref

/-- The amount captured of a reference's hold. -/
def capturedMicros (org ref : String) : ℤ := -t.entryWhere .capture fun o r => o = org ∧ r = ref

/-- The amount released of a reference's hold. -/
def releasedMicros (org ref : String) : ℤ := -t.entryWhere .release fun o r => o = org ∧ r = ref

end Tables

/-- The ledger and the allocations agree on every hold. -/
structure Settled (t : Tables) : Prop where
  allocation_keys : (t.allocations.map Allocation.key).Nodup
  entry_keys : (t.ledger.map Entry.key).Nodup
  shapes : ∀ e ∈ t.ledger, e.shape
  held : ∀ q, t.heldWhere q = t.allocatedWhere .hold q
  captured : ∀ q, -t.entryWhere .capture q = t.allocatedWhere .capture q

variable {t t' : Tables}

/-! ### Sums over the ledger -/

theorem heldWhere_append (t : Tables) (e : Entry) (q : String → String → Bool) :
    Tables.heldWhere { t with ledger := t.ledger ++ [e] } q =
      t.heldWhere q + if q e.org e.ref then e.heldDeltaMicros else 0 := by
  simp [Tables.heldWhere]

theorem entryWhere_append (t : Tables) (e : Entry) (type : EntryType)
    (q : String → String → Bool) :
    Tables.entryWhere { t with ledger := t.ledger ++ [e] } type q =
      t.entryWhere type q +
        if e.type = type && q e.org e.ref then e.heldDeltaMicros else 0 := by
  simp [Tables.entryWhere]

/-- What is held is what holds, captures and releases moved; the other entries hold nothing. -/
theorem heldWhere_split (h : ∀ e ∈ t.ledger, e.shape) (q : String → String → Bool) :
    t.heldWhere q = t.entryWhere .hold q + t.entryWhere .capture q + t.entryWhere .release q := by
  unfold Tables.heldWhere Tables.entryWhere
  revert h
  induction t.ledger with
  | nil => simp
  | cons e es ih =>
    intro h
    have hes := ih fun x hx => h x (List.mem_cons_of_mem _ hx)
    have he := h e List.mem_cons_self
    simp only [Table.sumIf_cons]
    rw [hes]
    unfold Entry.shape at he
    cases htype : e.type <;> simp only [htype] at he <;>
      cases hq : q e.org e.ref <;> simp [he] <;> omega

variable {org ref : String} {c : Circumstance}

theorem heldOf_nonpos (h : ∀ e ∈ t.ledger, e.shape)
    (hfree : ∀ e ∈ t.ledger, e.key ≠ (org, .hold, ref)) : t.heldOf org ref ≤ 0 := by
  refine Table.sumIf_nonpos fun e he hq => ?_
  simp only [decide_eq_true_eq] at hq
  have hshape := h e he
  unfold Entry.shape at hshape
  cases htype : e.type with
  | hold => exact absurd (Entry.key_eq.mpr ⟨hq.1, htype, hq.2⟩) (hfree e he)
  | funding => simp only [htype] at hshape; omega
  | capture => simp only [htype] at hshape; omega
  | release => simp only [htype] at hshape; omega
  | usageDebit => simp only [htype] at hshape; omega

namespace Settled

theorem allocatedBy_eq_zero (hs : Settled t) (hfree : ∀ e ∈ t.ledger, e.key ≠ (org, .hold, ref)) :
    t.allocatedBy org .hold ref = 0 := by
  have hle := heldOf_nonpos hs.shapes hfree
  have heq := hs.held fun o r => o = org ∧ r = ref
  unfold Tables.heldOf at hle
  unfold Tables.allocatedBy
  omega

theorem of_frame (hs : Settled t) (hl : t'.ledger = t.ledger)
    (ha : t'.allocations = t.allocations) : Settled t' := by
  refine ⟨by rw [ha]; exact hs.allocation_keys, by rw [hl]; exact hs.entry_keys,
    by rw [hl]; exact hs.shapes, fun q => ?_, fun q => ?_⟩
  · have := hs.held q
    unfold Tables.heldWhere Tables.allocatedWhere at this ⊢
    rw [hl, ha, this]
  · have := hs.captured q
    unfold Tables.entryWhere Tables.allocatedWhere at this ⊢
    rw [hl, ha, this]

theorem insertEntryOrIgnore (hs : Settled t) {e : Entry} (hshape : e.shape)
    (hheld : e.heldDeltaMicros = 0) : Settled (t.insertEntryOrIgnore e) := by
  rcases t.insertEntryOrIgnore_cases e with ⟨-, heq⟩ | ⟨hfree, heq⟩
  · rwa [heq]
  rw [heq]
  refine ⟨hs.allocation_keys, Table.nodup_insert hs.entry_keys hfree, ?_, fun q => ?_,
    fun q => ?_⟩
  · intro x hx
    rcases Table.mem_insert.mp hx with hx | rfl
    · exact hs.shapes x hx
    · exact hshape
  · rw [heldWhere_append, hheld, ite_self, add_zero]
    exact hs.held q
  · rw [entryWhere_append, hheld, ite_self, add_zero]
    exact hs.captured q

/-! ### One batch -/

theorem fund (hs : Settled t) {f : FundCall} (h : f.batch c t = some t') :
    Settled t' := by
  obtain ⟨l, -, -, -, rfl, -⟩ := FundCall.batch_cases h
  have hlot : Settled (t.insertLotOrIgnore l) := by
    rcases t.insertLotOrIgnore_cases l with ⟨-, heq⟩ | ⟨-, heq⟩ <;> rw [heq]
    · exact hs
    · exact hs.of_frame rfl rfl
  exact hlot.insertEntryOrIgnore ⟨Int.natCast_nonneg _, rfl⟩ rfl

/-- What the rows an allocation inserts add to a sum: their total, where the sum is of their
debit type and picks their reference. -/
theorem allocatedWhere_append {rows : List Allocation} {type : DebitType}
    (hrows : ∀ r ∈ rows, r.org = org ∧ r.debitType = type ∧ r.debitRef = ref) (t : Tables)
    (type' : DebitType) (q : String → String → Bool) :
    Tables.allocatedWhere { t with allocations := t.allocations ++ rows } type' q =
      t.allocatedWhere type' q +
        if type = type' && q org ref then (rows.map Allocation.amountMicros).sum else 0 := by
  unfold Tables.allocatedWhere
  rw [Table.sumIf_append]
  congr 1
  refine Table.sumIf_const fun r hr => ?_
  obtain ⟨ho, hty, hre⟩ := hrows r hr
  rw [ho, hty, hre]

theorem insert_hold (hs : Settled t) {rows : List Allocation} {amount : ℕ}
    (hrows : ∀ r ∈ rows, r.org = org ∧ r.debitType = .hold ∧ r.debitRef = ref)
    (hnodup : ((t.allocations ++ rows).map Allocation.key).Nodup)
    (hfree : ∀ e ∈ t.ledger, e.key ≠ (org, .hold, ref))
    (htotal : (rows.map Allocation.amountMicros).sum = amount) :
    Settled { t with
      ledger := t.ledger ++ [⟨org, .hold, ref, 0, amount⟩]
      allocations := t.allocations ++ rows } := by
  refine ⟨hnodup, Table.nodup_insert hs.entry_keys hfree, ?_, fun q => ?_, fun q => ?_⟩
  · intro x hx
    rcases Table.mem_insert.mp hx with hx | rfl
    · exact hs.shapes x hx
    · exact ⟨rfl, Int.natCast_nonneg _⟩
  · have hledger : Tables.heldWhere _ q = t.heldWhere q + if q org ref then (amount : ℤ) else 0 :=
      heldWhere_append { t with allocations := t.allocations ++ rows } ⟨org, .hold, ref, 0, amount⟩ q
    have hrows' : Tables.allocatedWhere _ .hold q = t.allocatedWhere .hold q + _ :=
      allocatedWhere_append hrows
        { t with ledger := t.ledger ++ [⟨org, .hold, ref, 0, amount⟩] } .hold q
    rw [htotal] at hrows'
    rw [hledger, hrows', hs.held q]
    cases q org ref <;> simp
  · have hledger : Tables.entryWhere _ .capture q = t.entryWhere .capture q + _ :=
      entryWhere_append { t with allocations := t.allocations ++ rows }
        ⟨org, .hold, ref, 0, amount⟩ .capture q
    have hrows' : Tables.allocatedWhere _ .capture q = t.allocatedWhere .capture q + _ :=
      allocatedWhere_append hrows
        { t with ledger := t.ledger ++ [⟨org, .hold, ref, 0, amount⟩] } .capture q
    rw [hledger, hrows']
    simpa using hs.captured q

theorem debit (hs : Settled t) {d : DebitCall} {picks : List Pick} {now : Instant}
    (h : d.batch picks now c t = some t')
    (hidle : d.kind = .hold → d.recorded t = true → d.idle { c with now := now } picks t = true) :
    Settled t' := by
  obtain ⟨-, hsum, rfl⟩ := DebitCall.batch_cases h
  obtain ⟨rows, heq, hrows, hnodup⟩ :=
    DebitCall.allocate_cases (d := d) { c with now := now } picks t hs.allocation_keys
  by_cases hhold : d.kind = .hold
  · have htype : d.type = .hold := by simp [DebitCall.type, hhold]
    have hetype : d.entryType = .hold := by simp [DebitCall.entryType, hhold]
    have hentry : d.entry = ⟨d.org, .hold, d.reference, 0, d.amountMicros⟩ := by
      simp [DebitCall.entry, hhold]
    rcases Tables.insertEntryOrIgnore_cases (d.allocate { c with now := now } picks t) d.entry with
      ⟨hrec, hins⟩ | ⟨hfree, hins⟩
    · -- a recorded reference gets nothing
      have hrec' : d.recorded t = true := by
        rw [heq] at hrec
        simpa [DebitCall.recorded, hetype, hentry, Tables.entry] using hrec
      rw [hins, DebitCall.allocate_of_idle (hidle hhold hrec')]
      exact hs
    · -- a new one gets its whole amount, having had nothing
      rw [heq, hentry] at hfree
      rw [heq] at hsum
      rw [htype] at hrows hsum
      have hzero := hs.allocatedBy_eq_zero hfree
      have htotal : (rows.map Allocation.amountMicros).sum = d.amountMicros := by
        unfold Tables.allocatedBy at hsum hzero
        rw [allocatedWhere_append hrows, hzero] at hsum
        simpa using hsum
      rw [hins, heq, hentry]
      exact hs.insert_hold hrows hnodup hfree htotal
  · -- the rows and the entry of a usage debit count in no sum
    have htype : d.type = .usageDebit := by simp [DebitCall.type, hhold]
    have hentry : d.entry = ⟨d.org, .usageDebit, d.reference, -d.amountMicros, 0⟩ := by
      simp [DebitCall.entry, hhold]
    rw [htype] at hrows
    have halloc : Settled { t with allocations := t.allocations ++ rows } := by
      refine ⟨hnodup, hs.entry_keys, hs.shapes, fun q => ?_, fun q => ?_⟩
      · rw [allocatedWhere_append hrows]
        exact hs.held q
      · rw [allocatedWhere_append hrows]
        exact hs.captured q
    rw [heq, hentry]
    exact halloc.insertEntryOrIgnore ⟨by simp, rfl⟩ rfl

theorem settle (hs : Settled t) {s : SettleCall} {plan : SettlePlan s.amountMicros}
    (hlots : (plan.selection.picks.map Pick.lotRef).Nodup)
    (hle : ∀ p ∈ plan.selection.picks, p.amount ≤ p.previous)
    (hcurrent : s.current plan.selection.picks t = true) (h : s.batch plan c t = some t') :
    Settled t' := by
  obtain ⟨t₁, hmoves, -, hfree, rfl⟩ := SettleCall.batch_cases h
  obtain ⟨-, hledger, -⟩ := SettleCall.moves_same hmoves
  obtain ⟨hnodup, hsum⟩ := SettleCall.moves_spec hs.allocation_keys hlots hle hcurrent hmoves
  have hshape : s.entry.shape := by
    unfold SettleCall.entry
    cases s.type <;> simp [Entry.shape]
  have htotal : ∀ b : Bool, Table.sumIf (fun _ => b) Pick.amount plan.selection.picks =
      if b then s.amountMicros else 0 := by
    intro b
    rw [Table.sumIf_const (b := b) fun _ _ => rfl, plan.selection.total]
  refine ⟨hnodup, Table.nodup_insert (by rw [hledger]; exact hs.entry_keys) hfree, ?_, fun q => ?_,
    fun q => ?_⟩
  · intro x hx
    rcases Table.mem_insert.mp hx with hx | rfl
    · rw [hledger] at hx
      exact hs.shapes x hx
    · exact hshape
  · -- the hold rows lose the amount, and so does the ledger
    have hq : t₁.allocatedWhere .hold q + _ = t.allocatedWhere .hold q + _ :=
      hsum fun k => decide (k.2.1 = .hold) && q k.1 k.2.2.1
    simp only [SettleCall.holdKey, SettleCall.captureKey, decide_true, Bool.true_and, reduceCtorEq,
      decide_false, Bool.false_and, Bool.false_eq_true, and_false, htotal] at hq
    have hheld : s.entry.heldDeltaMicros = -(s.amountMicros : ℤ) ∧ s.entry.org = s.org ∧
        s.entry.ref = s.reference := by
      unfold SettleCall.entry
      cases s.type <;> exact ⟨rfl, rfl, rfl⟩
    have hbefore : t₁.heldWhere q = t.heldWhere q := by
      unfold Tables.heldWhere
      rw [hledger]
    have hafter : Tables.allocatedWhere { t₁ with ledger := t₁.ledger ++ [s.entry] } .hold q =
        t₁.allocatedWhere .hold q := rfl
    have hheld₀ := hs.held q
    rw [heldWhere_append, hbefore, hafter, hheld.1, hheld.2.1, hheld.2.2]
    cases hqr : q s.org s.reference <;>
      simp only [hqr, if_true, if_false, Bool.false_eq_true] at hq ⊢ <;> omega
  · have hq : t₁.allocatedWhere .capture q + _ = t.allocatedWhere .capture q + _ :=
      hsum fun k => decide (k.2.1 = .capture) && q k.1 k.2.2.1
    have hbefore : t₁.entryWhere .capture q = t.entryWhere .capture q := by
      unfold Tables.entryWhere
      rw [hledger]
    have hafter : Tables.allocatedWhere { t₁ with ledger := t₁.ledger ++ [s.entry] } .capture q =
        t₁.allocatedWhere .capture q := rfl
    have hcaptured₀ := hs.captured q
    rw [entryWhere_append, hbefore, hafter]
    simp only [SettleCall.holdKey, SettleCall.captureKey, decide_true, Bool.true_and, reduceCtorEq,
      decide_false, Bool.false_and, htotal] at hq
    unfold SettleCall.entry
    cases htype : s.type with
    | release =>
      simp only [htype, reduceCtorEq, false_and, decide_false] at hq ⊢
      simp at hq ⊢
      omega
    | capture =>
      simp only [htype, true_and] at hq ⊢
      cases hqr : q s.org s.reference <;> simp [hqr] at hq ⊢ <;> omega

theorem closeHold (hs : Settled t) {r : RefundCall} {closure : String × ℕ}
    (h : r.closeHold closure t = some t') : Settled t' := by
  obtain ⟨hsum, hfree, rfl⟩ := RefundCall.closeHold_cases h
  let deleted : Allocation → Bool := fun a =>
    decide (a.org = r.org ∧ a.debitType = .hold ∧ a.debitRef = closure.1)
  refine ⟨hs.allocation_keys.sublist (List.filter_sublist.map _),
    Table.nodup_insert hs.entry_keys hfree, ?_, fun q => ?_, fun q => ?_⟩
  · intro x hx
    rcases Table.mem_insert.mp hx with hx | rfl
    · exact hs.shapes x hx
    · exact ⟨rfl, by simp⟩
  · -- the deleted rows are those of the reference, which held the closure's amount
    have hsplit := Table.sumIf_split (p := fun a => decide (a.debitType = .hold) &&
      q a.org a.debitRef) (f := Allocation.amountMicros) deleted t.allocations
    have hgone : Table.sumIf (fun a => deleted a && (decide (a.debitType = .hold) &&
        q a.org a.debitRef)) Allocation.amountMicros t.allocations =
          if q r.org closure.1 then closure.2 else 0 := by
      rw [← hsum]
      cases hq : q r.org closure.1
      · refine Table.sumIf_eq_zero fun a _ ha => ?_
        simp only [deleted, Bool.and_eq_true, decide_eq_true_eq] at ha
        rw [ha.1.1, ha.1.2.2, hq] at ha
        cases ha.2.2
      · refine Table.sumIf_congr fun a _ => ?_
        congr 1
        simp only [deleted, Bool.and_eq_true, decide_eq_true_eq, eq_iff_iff]
        constructor
        · rintro ⟨⟨ho, hty, hre⟩, -⟩
          exact ⟨hty, ho, hre⟩
        · rintro ⟨hty, ho, hre⟩
          exact ⟨⟨ho, hty, hre⟩, hty, by rw [ho, hre, hq]⟩
    have hrest : Tables.allocatedWhere { t with
        ledger := t.ledger ++ [⟨r.org, .release, closure.1, 0, -closure.2⟩]
        allocations := (t.deleteHolds r.org closure.1).allocations } .hold q = _ :=
      Table.sumIf_filter (f := Allocation.amountMicros) (fun a => !deleted a) t.allocations
    have hheld := hs.held q
    have hledger : Tables.heldWhere _ q =
        t.heldWhere q + if q r.org closure.1 then -(closure.2 : ℤ) else 0 :=
      heldWhere_append { t with allocations := (t.deleteHolds r.org closure.1).allocations }
        ⟨r.org, .release, closure.1, 0, -closure.2⟩ q
    rw [hgone] at hsplit
    rw [hledger, hrest]
    unfold Tables.allocatedWhere at hheld
    split
    · next hq =>
      simp only [hq, if_true] at hsplit
      omega
    · next hq =>
      simp only [hq, Bool.false_eq_true, if_false] at hsplit
      omega
  · have hrest : Tables.allocatedWhere { t with
        ledger := t.ledger ++ [⟨r.org, .release, closure.1, 0, -closure.2⟩]
        allocations := (t.deleteHolds r.org closure.1).allocations } .capture q =
          t.allocatedWhere .capture q := by
      refine (Table.sumIf_filter _ t.allocations).trans (Table.sumIf_congr fun a _ => ?_)
      by_cases hty : a.debitType = .capture <;> simp [hty]
    have hledger : Tables.entryWhere _ .capture q = t.entryWhere .capture q + _ :=
      entryWhere_append { t with allocations := (t.deleteHolds r.org closure.1).allocations }
        ⟨r.org, .release, closure.1, 0, -closure.2⟩ .capture q
    rw [hledger, hrest]
    simpa using hs.captured q

theorem refund (hs : Settled t) {r : RefundCall} {plan : RefundPlan}
    (h : r.batch plan c t = some t') : Settled t' := by
  obtain ⟨-, t₁, _, hclose, -, -, -, -, -, -, hledger, hallocations, -⟩ := RefundCall.batch_cases h
  have h₁ : Settled t₁ :=
    RefundCall.closeHolds_induction (P := Settled) (fun _ _ _ ht h => ht.closeHold h) hclose hs
  exact h₁.of_frame hledger hallocations

end Settled

/-! ### What a plan has read -/

/-- The lots of the rows a settlement read are different. -/
def Client.Planned : Client → Prop
  | .settling _ (.captured _ rows) | .settling _ (.fence _ rows _) => (rows.map Prod.fst).Nodup
  | .settling _ (.committing plan) =>
      (plan.selection.picks.map Pick.lotRef).Nodup ∧
        ∀ p ∈ plan.selection.picks, p.amount ≤ p.previous
  | _ => True

/-- The hold rows of a reference are of different lots. -/
theorem heldRows_nodup (hn : (t.allocations.map Allocation.key).Nodup) (org ref : String) :
    ((t.heldRows org ref).map Prod.fst).Nodup := by
  unfold Tables.heldRows
  rw [List.map_map]
  refine ((List.perm_insertionSort _ _).map _).nodup_iff.mpr ?_
  rw [List.Nodup, List.pairwise_map, List.pairwise_filterMap]
  rw [List.Nodup, List.pairwise_map] at hn
  refine hn.imp ?_
  intro a a' hne row hrow row' hrow' heq
  split at hrow
  · next ha =>
    split at hrow'
    · next ha' =>
      simp only [Option.map_eq_some_iff] at hrow hrow'
      obtain ⟨l, hl, rfl⟩ := hrow
      obtain ⟨_, hl', rfl⟩ := hrow'
      have hlot : a.lotRef = a'.lotRef := by
        rw [← (Tables.lot_some hl).2.2, ← (Tables.lot_some hl').2.2]
        exact heq
      refine hne (Allocation.key_eq.mpr ⟨?_, ?_, ?_, hlot⟩)
      · rw [ha.1, ha'.1]
      · rw [ha.2.1, ha'.2.1]
      · rw [ha.2.2, ha'.2.2]
    · cases hrow'
  · cases hrow

theorem planned_commits {s : SettleCall} {remainingHold : ℤ} {rows : List (String × ℕ)}
    {capturedBefore : ℕ} (hrows : (rows.map Prod.fst).Nodup) :
    (s.commits (s.plan remainingHold rows capturedBefore)).Planned := by
  cases hplan : s.plan remainingHold rows capturedBefore with
  | none => exact trivial
  | some plan =>
    unfold SettleCall.plan at hplan
    split at hplan
    · cases hplan
    · rw [Option.map_eq_some_iff] at hplan
      obtain ⟨_, hselect, rfl⟩ := hplan
      refine ⟨?_, fun p hp => ?_⟩
      · rw [select_some hselect]
        exact hrows.sublist (draw_lotRefs _ _)
      · rw [select_some hselect] at hp
        exact (draw_mem hp).2.2

theorem planned_start (call : Call) : call.start.Planned := by
  unfold Call.start
  cases call <;> simp only <;> split <;> exact trivial

theorem planned_step (hn : (t.allocations.map Allocation.key).Nodup) (c : Circumstance)
    {client : Client} (h : client.Planned) : (client.step t c).1.Planned := by
  cases client with
  | idle => exact trivial
  | finished => exact trivial
  | funding f stage =>
    show (f.step t c stage).1.Planned
    unfold FundCall.step
    repeat' split
    all_goals exact trivial
  | debiting d stage =>
    show (d.step t c stage).1.Planned
    unfold DebitCall.step DebitCall.insufficient
    repeat' split
    all_goals exact trivial
  | refunding r stage =>
    show (r.step t c stage).1.Planned
    unfold RefundCall.step RefundCall.refuse
    dsimp only
    repeat' split
    all_goals exact trivial
  | settling s stage =>
    cases stage with
    | rows => exact heldRows_nodup hn s.org s.reference
    | captured =>
      simp only [Client.step, SettleCall.step]
      split
      · exact trivial
      · cases s.type with
        | capture => exact h
        | release => exact planned_commits h
    | fence =>
      simp only [Client.step, SettleCall.step]
      split
      · exact trivial
      · exact planned_commits h
    | existing =>
      simp only [Client.step, SettleCall.step]
      repeat' split
      all_goals exact trivial
    | balance => exact trivial
    | committing =>
      simp only [Client.step, SettleCall.step]
      split <;> exact trivial

/-! ### Runs -/

theorem step_cases (t : Tables) (c : Circumstance) (client : Client) :
    (client.step t c).2 = t ∨
      (∃ f, client = .funding f .committing ∧ f.batch c t = some (client.step t c).2) ∨
      (∃ d selection now, client = .debiting d (.committing selection now) ∧
        d.batch selection.picks now c t = some (client.step t c).2) ∨
      (∃ s plan, client = .settling s (.committing plan) ∧
        s.batch plan c t = some (client.step t c).2) ∨
      ∃ r plan, client = .refunding r (.committing plan) ∧
        r.batch plan c t = some (client.step t c).2 := by
  -- the commit of a call is its only write
  cases client with
  | idle => exact Or.inl rfl
  | finished => exact Or.inl rfl
  | funding f stage =>
    cases stage with
    | committing =>
      cases hb : f.batch c t with
      | some t' => exact Or.inr (Or.inl ⟨f, rfl, by simp [Client.step, FundCall.step, hb]⟩)
      | none =>
        refine Or.inl ?_
        simp only [Client.step, FundCall.step, hb]
        split <;> rfl
    | _ =>
      refine Or.inl ?_
      simp only [Client.step, FundCall.step]
      repeat' split
      all_goals rfl
  | debiting d stage =>
    cases stage with
    | committing selection now =>
      cases hb : d.batch selection.picks now c t with
      | some t' =>
        exact Or.inr (Or.inr (Or.inl ⟨d, selection, now, rfl, by
          simp [Client.step, DebitCall.step, hb]⟩))
      | none =>
        refine Or.inl ?_
        simp only [Client.step, DebitCall.step, hb]
        split <;> rfl
    | _ =>
      refine Or.inl ?_
      simp only [Client.step, DebitCall.step]
      repeat' split
      all_goals rfl
  | settling s stage =>
    cases stage with
    | committing plan =>
      cases hb : s.batch plan c t with
      | some t' =>
        exact Or.inr (Or.inr (Or.inr (Or.inl ⟨s, plan, rfl, by
          simp [Client.step, SettleCall.step, hb]⟩)))
      | none => exact Or.inl (by simp [Client.step, SettleCall.step, hb])
    | _ =>
      refine Or.inl ?_
      simp only [Client.step, SettleCall.step]
      repeat' split
      all_goals rfl
  | refunding r stage =>
    cases stage with
    | committing plan =>
      cases hb : r.batch plan c t with
      | some t' =>
        exact Or.inr (Or.inr (Or.inr (Or.inr ⟨r, plan, rfl, by
          simp [Client.step, RefundCall.step, hb]⟩)))
      | none => exact Or.inl (by simp [Client.step, RefundCall.step, hb])
    | totals _ _ refs =>
      refine Or.inl ?_
      cases refs <;> simp only [Client.step, RefundCall.step] <;> split <;> rfl
    | _ =>
      refine Or.inl ?_
      simp only [Client.step, RefundCall.step]
      repeat' split
      all_goals rfl

/-- The batch a client is about to run, if it commits, commits on current rows: a hold
inserts nothing for a reference the ledger has, and a settlement finds every hold row it
selected with the amount it read. -/
def Client.current (t : Tables) (c : Circumstance) : Client → Bool
  | .debiting d (.committing selection now) =>
      !(d.kind = .hold && d.recorded t && (d.batch selection.picks now c t).isSome) ||
        d.idle { c with now := now } selection.picks t
  | .settling s (.committing plan) =>
      !(s.batch plan c t).isSome || s.current plan.selection.picks t
  | _ => true

/-- Every hold and settlement of the run commits on current rows. -/
def settlesCurrent (s : System) : WalletAction → Bool
  | .step i c => (s.client i).current s.db c
  | _ => true

theorem settled_step (hs : Settled t) {client : Client} (hp : client.Planned)
    (hcurrent : client.current t c = true) : Settled (client.step t c).2 := by
  rcases step_cases t c client with heq | ⟨f, -, hb⟩ | ⟨d, _, _, rfl, hb⟩ |
    ⟨s, plan, rfl, hb⟩ | ⟨r, plan, -, hb⟩
  · rwa [heq]
  · exact hs.fund hb
  · refine hs.debit hb fun hhold hrec => ?_
    simpa [Client.current, hhold, hrec, hb] using hcurrent
  · refine hs.settle hp.1 hp.2 ?_ hb
    simpa [Client.current, hb] using hcurrent
  · exact hs.refund hb

theorem settled_init : Settled {} :=
  ⟨List.nodup_nil, List.nodup_nil, by simp, fun _ => rfl, fun _ => rfl⟩

/-- The invariant of the runs whose batches commit on current rows. -/
theorem settled_of_reachVia {s : System} (h : wallets.ReachVia (fun s a => settlesCurrent s a) s) :
    Settled s.db ∧ ∀ i, (s.client i).Planned := by
  refine Machine.ReachVia.invariant (P := fun s => Settled s.db ∧ ∀ i, (s.client i).Planned)
    ⟨settled_init, fun _ => trivial⟩ ?_ h
  rintro s a _ ⟨hs, hp⟩ hok hn
  have hupdate : ∀ (i : ℕ) (client : Client), client.Planned →
      ∀ j, (Function.update s.client i client j).Planned := by
    intro i client hclient j
    by_cases hj : j = i
    · subst hj
      rwa [Function.update_self]
    · rw [Function.update_of_ne hj]
      exact hp j
  cases a with
  | call i call =>
    cases hn
    exact ⟨hs, hupdate i _ (planned_start call)⟩
  | step i c =>
    cases hn
    exact ⟨settled_step hs (hp i) hok, hupdate i _ (planned_step hs.allocation_keys c (hp i))⟩
  | crash i =>
    cases hn
    exact ⟨hs, hupdate i _ trivial⟩
  | fence f =>
    cases hn
    exact ⟨hs.of_frame rfl rfl, hp⟩

/-- **Settlement on current rows.**  In every run whose holds and settlements commit on
current rows, no reference is captured and released beyond what was held for it, and every
organization's held balance is what its hold allocations add up to. -/
theorem hold_settlement {s : System} (h : wallets.ReachVia (fun s a => settlesCurrent s a) s) :
    (∀ org ref, s.db.capturedMicros org ref + s.db.releasedMicros org ref ≤
      s.db.heldMicros org ref) ∧
      ∀ org, s.db.heldBalance org = s.db.allocatedHeld org ∧ 0 ≤ s.db.heldBalance org := by
  have hs := (settled_of_reachVia h).1
  refine ⟨fun org ref => ?_, fun org => ?_⟩
  · have hheld := hs.held fun o r => o = org ∧ r = ref
    have hsplit := heldWhere_split hs.shapes fun o r => o = org ∧ r = ref
    unfold Tables.capturedMicros Tables.releasedMicros Tables.heldMicros
    omega
  · have hheld : s.db.heldBalance org = s.db.allocatedHeld org := hs.held fun o _ => o = org
    exact ⟨hheld, by rw [hheld]; exact Int.natCast_nonneg _⟩

/-! ### Runs that settle, and one that settles twice -/

/-- The next `n` statements of a client, at one instant. -/
def advance (i n : ℕ) (now : Instant) : List WalletAction :=
  List.replicate n (.step i { now := now })

/-- A hold of 100 out of a lot of 100. -/
def heldRun : List WalletAction :=
  .call 0 (.fund { org := "org", fundingRef := "lot", amountMicros := 100,
                   consumptionClass := .subscription }) :: advance 0 6 0 ++
  .call 0 (.debit { org := "org", kind := .hold, reference := "job", amountMicros := 100 }) ::
    advance 0 4 0

/-- The hold is captured in part and the rest of it released. -/
def settledRun : List WalletAction :=
  heldRun ++
  .call 1 (.settle { org := "org", type := .capture, reference := "job", amountMicros := 40 }) ::
    advance 1 6 0 ++
  .call 1 (.settle { org := "org", type := .release, reference := "job", amountMicros := 60 }) ::
    advance 1 5 0

theorem hold_settlement_settledRun : ∃ s : System,
    s.db.heldMicros "org" "job" = 100 ∧ s.db.capturedMicros "org" "job" = 40 ∧
      s.db.capturedMicros "org" "job" + s.db.releasedMicros "org" "job" ≤
        s.db.heldMicros "org" "job" ∧
      s.db.heldBalance "org" = s.db.allocatedHeld "org" := by
  obtain ⟨s, hs, hp⟩ := Machine.exists_reachVia_of_run (M := wallets) settlesCurrent settledRun
    (fun s => decide (s.db.heldMicros "org" "job" = 100 ∧ s.db.capturedMicros "org" "job" = 40))
    (by decide +kernel)
  rw [decide_eq_true_eq] at hp
  have h := hold_settlement hs
  exact ⟨s, hp.1, hp.2, h.1 "org" "job", (h.2 "org").1⟩

/-- A capture of the whole hold is planned, the hold is released, and then the capture's
batch runs: it deletes no row and its guard holds, for nothing is held any more. -/
def staleCapture : List WalletAction :=
  heldRun ++
  .call 1 (.settle { org := "org", type := .capture, reference := "job", amountMicros := 100 }) ::
    advance 1 5 0 ++
  .call 2 (.settle { org := "org", type := .release, reference := "job", amountMicros := 100 }) ::
    advance 2 5 0 ++ advance 1 1 0

/-- A run that captures a hold after releasing it. -/
theorem stale_capture : ∃ s, wallets.Reachable s ∧
    s.db.heldMicros "org" "job" = 100 ∧
      s.db.capturedMicros "org" "job" + s.db.releasedMicros "org" "job" = 200 ∧
      s.db.heldBalance "org" = -100 ∧ s.db.allocatedHeld "org" = 0 := by
  obtain ⟨s, hs, hp⟩ := Machine.exists_reachable_of_run (M := wallets) staleCapture
    (fun s => decide (s.db.heldMicros "org" "job" = 100 ∧
      s.db.capturedMicros "org" "job" + s.db.releasedMicros "org" "job" = 200 ∧
      s.db.heldBalance "org" = -100 ∧ s.db.allocatedHeld "org" = 0)) (by decide +kernel)
  rw [decide_eq_true_eq] at hp
  exact ⟨s, hs, hp⟩

end Takoserver.Wallet
