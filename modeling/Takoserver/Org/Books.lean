import Takoserver.Wallet.Batches

/-!
# The books of one reference

What the wallet has under one organization and reference: what is held for it, its
ledger entries but for those of a funding, and its allocations.  A batch that is about
one reference leaves the books of every other as they are, and a funding leaves all of
them.
-/

namespace Takoserver.Wallet

namespace Tables

variable (m : Tables) (org ref : String)

/-- The entries of a reference, but for those of a funding. -/
def ledgerOf : List Entry :=
  m.ledger.filter fun e => decide (e.org = org ∧ e.ref = ref ∧ e.type ≠ .funding)

/-- The allocations of a reference. -/
def allocationsOf : List Allocation :=
  m.allocations.filter fun a => decide (a.org = org ∧ a.debitRef = ref)

theorem allocatedBy_eq (type : DebitType) :
    m.allocatedBy org type ref =
      Table.sumIf (fun a => decide (a.debitType = type)) Allocation.amountMicros
        (m.allocationsOf org ref) := by
  rw [allocationsOf, Table.sumIf_filter]
  refine Table.sumIf_congr fun a _ => ?_
  rw [Bool.and_comm]

end Tables

/-- Two states of the wallet have the same books of a reference. -/
structure SameBooks (m m' : Tables) (org ref : String) : Prop where
  held : m'.heldOf org ref = m.heldOf org ref
  ledger : m'.ledgerOf org ref = m.ledgerOf org ref
  allocations : m'.allocationsOf org ref = m.allocationsOf org ref

/-- The wallet has nothing of a reference. -/
structure Blank (m : Tables) (org ref : String) : Prop where
  held : m.heldOf org ref = 0
  ledger : m.ledgerOf org ref = []
  allocations : m.allocationsOf org ref = []

theorem Blank.allocatedBy {m : Tables} {org ref : String} (h : Blank m org ref)
    (type : DebitType) : m.allocatedBy org type ref = 0 := by
  rw [Tables.allocatedBy_eq, h.allocations]
  rfl

namespace SameBooks

variable {m m' m'' : Tables} {org ref : String}

theorem refl (m : Tables) (org ref : String) : SameBooks m m org ref := ⟨rfl, rfl, rfl⟩

theorem trans (h : SameBooks m m' org ref) (h' : SameBooks m' m'' org ref) :
    SameBooks m m'' org ref :=
  ⟨h'.held.trans h.held, h'.ledger.trans h.ledger, h'.allocations.trans h.allocations⟩

theorem of_eq (hl : m'.ledger = m.ledger) (ha : m'.allocations = m.allocations) :
    SameBooks m m' org ref :=
  ⟨by rw [Tables.heldOf, Tables.heldWhere, hl]; rfl, by rw [Tables.ledgerOf, hl, Tables.ledgerOf],
    by rw [Tables.allocationsOf, ha, Tables.allocationsOf]⟩

theorem allocatedBy (h : SameBooks m m' org ref) (type : DebitType) :
    m'.allocatedBy org type ref = m.allocatedBy org type ref := by
  rw [Tables.allocatedBy_eq, Tables.allocatedBy_eq, h.allocations]

theorem blank (h : SameBooks m m' org ref) (hb : Blank m org ref) : Blank m' org ref :=
  ⟨h.held.trans hb.held, h.ledger.trans hb.ledger, h.allocations.trans hb.allocations⟩

/-- Entries and allocations of other references are appended, or entries of a funding. -/
theorem of_append {E : List Entry} {R : List Allocation}
    (hl : m'.ledger = m.ledger ++ E) (ha : m'.allocations = m.allocations ++ R)
    (he : ∀ e ∈ E,
      ¬(e.org = org ∧ e.ref = ref) ∨ (e.type = .funding ∧ e.heldDeltaMicros = 0))
    (hr : ∀ a ∈ R, ¬(a.org = org ∧ a.debitRef = ref)) : SameBooks m m' org ref := by
  refine ⟨?_, ?_, ?_⟩
  · have hzero : Table.sumIf (fun e => decide (e.org = org ∧ e.ref = ref)) Entry.heldDeltaMicros
        E = 0 := by
      refine Table.sumIf_eq_zero fun e hmem hp => ?_
      rcases he e hmem with hne | ⟨-, hz⟩
      · exact absurd (of_decide_eq_true hp) hne
      · exact hz
    rw [Tables.heldOf, Tables.heldWhere, hl, Table.sumIf_append, hzero, add_zero]
    rfl
  · rw [Tables.ledgerOf, Tables.ledgerOf, hl, List.filter_append,
      List.filter_eq_nil_iff (l := E) |>.mpr fun e hmem => ?_, List.append_nil]
    rw [decide_eq_true_eq]
    rintro ⟨ho, hre, hf⟩
    rcases he e hmem with hne | ⟨hf', -⟩
    · exact hne ⟨ho, hre⟩
    · exact hf hf'
  · rw [Tables.allocationsOf, Tables.allocationsOf, ha, List.filter_append,
      List.filter_eq_nil_iff (l := R) |>.mpr fun a hmem => by simpa using hr a hmem,
      List.append_nil]

theorem of_delete {p : Allocation → Bool} (hl : m'.ledger = m.ledger)
    (ha : m'.allocations = m.allocations.filter fun a => !p a)
    (hp : ∀ a ∈ m.allocations, p a = true → ¬(a.org = org ∧ a.debitRef = ref)) :
    SameBooks m m' org ref := by
  refine ⟨by rw [Tables.heldOf, Tables.heldWhere, hl]; rfl,
    by rw [Tables.ledgerOf, hl, Tables.ledgerOf], ?_⟩
  rw [Tables.allocationsOf, Tables.allocationsOf, ha, List.filter_filter]
  refine List.filter_congr fun a hmem => ?_
  cases hpa : p a
  · simp
  · simpa using hp a hmem hpa

end SameBooks

/-! ### Sums of the books -/

namespace Tables

variable {m : Tables} {org ref : String}

theorem heldOf_append {entries : List Entry} {rows : List Allocation} :
    Tables.heldOf { m with ledger := m.ledger ++ entries, allocations := rows } org ref =
      m.heldOf org ref +
        Table.sumIf (fun e => decide (e.org = org ∧ e.ref = ref)) Entry.heldDeltaMicros entries := by
  rw [heldOf, heldWhere, Table.sumIf_append]
  rfl

theorem allocatedBy_deleteHolds (org ref : String) :
    (m.deleteHolds org ref).allocatedBy org .hold ref = 0 := by
  unfold allocatedBy allocatedWhere deleteHolds
  rw [Table.sumIf_filter]
  refine Table.sumIf_eq_zero fun a _ hp => ?_
  simp only [Bool.and_eq_true, Bool.not_eq_true', decide_eq_false_iff_not, decide_eq_true_eq] at hp
  exact absurd ⟨hp.2.2.1, hp.2.1, hp.2.2.2⟩ hp.1

theorem allocatedBy_deleteHolds_of_ne {type : DebitType} (htype : type ≠ .hold) (o r : String) :
    (m.deleteHolds org ref).allocatedBy o type r = m.allocatedBy o type r := by
  unfold allocatedBy allocatedWhere deleteHolds
  rw [Table.sumIf_filter]
  refine Table.sumIf_congr fun a _ => ?_
  by_cases ha : a.debitType = type
  · have hne : a.debitType ≠ .hold := fun h => htype (ha.symm.trans h)
    simp [hne]
  · simp [ha]

end Tables

/-! ### Debits -/

variable {picks : List Pick} {c : Circumstance}

namespace DebitCall

variable {d : DebitCall}

/-- What a committed debit appended: allocations of its reference, which now add up to its
amount, and its entry unless the reference had one. -/
theorem batch_books {now : Instant} {m m' : Tables} (hn : (m.allocations.map Allocation.key).Nodup)
    (h : d.batch picks now c m = some m') :
    ∃ rows entries, m' = { m with
        allocations := m.allocations ++ rows
        ledger := m.ledger ++ entries } ∧
      (∀ a ∈ rows, a.org = d.org ∧ a.debitType = d.type ∧ a.debitRef = d.reference) ∧
      (m'.allocations.map Allocation.key).Nodup ∧
      m'.allocatedBy d.org d.type d.reference = d.amountMicros ∧
      (entries = [] ∧ (m.entry d.org d.entryType d.reference).isSome ∨
        entries = [d.entry] ∧ ∀ e ∈ m.ledger, e.key ≠ d.entry.key) := by
  obtain ⟨-, hsum, rfl⟩ := batch_cases h
  obtain ⟨rows, heq, hrows, hnodup⟩ := d.allocate_cases { c with now := now } picks m hn
  rw [heq] at hsum ⊢
  have hkey : d.entry.key = (d.org, d.entryType, d.reference) := by
    unfold entry entryType
    split <;> rfl
  rcases Tables.insertEntryOrIgnore_cases { m with allocations := m.allocations ++ rows } d.entry with
    ⟨hsome, hins⟩ | ⟨hfree, hins⟩
  · refine ⟨rows, [], ?_, hrows, ?_, ?_, Or.inl ⟨rfl, ?_⟩⟩
    · rw [hins]
      simp
    · rw [hins]
      exact hnodup
    · rw [hins]
      exact hsum
    · have : Tables.entry m d.entry.org d.entry.type d.entry.ref =
          m.entry d.org d.entryType d.reference := by
        simp only [Entry.key, Prod.mk.injEq] at hkey
        rw [hkey.1, hkey.2.1, hkey.2.2]
      rw [← this]
      exact hsome
  · refine ⟨rows, [d.entry], hins, hrows, ?_, ?_, Or.inr ⟨rfl, hfree⟩⟩
    · rw [hins]
      exact hnodup
    · rw [hins]
      exact hsum

theorem entry_org : d.entry.org = d.org := by
  unfold entry
  split <;> rfl

theorem entry_ref : d.entry.ref = d.reference := by
  unfold entry
  split <;> rfl

/-- A debit leaves the books of other references. -/
theorem batch_sameBooks {now : Instant} {m m' : Tables} {org ref : String}
    (hn : (m.allocations.map Allocation.key).Nodup) (h : d.batch picks now c m = some m')
    (hne : ¬(d.org = org ∧ d.reference = ref)) :
    SameBooks m m' org ref := by
  obtain ⟨_, _, rfl, hrows, -, -, hentries⟩ := batch_books hn h
  refine SameBooks.of_append rfl rfl (fun e he => ?_) fun a ha => ?_
  · rcases hentries with ⟨rfl, -⟩ | ⟨rfl, -⟩
    · cases he
    · rw [List.mem_singleton.mp he, entry_org, entry_ref]
      exact Or.inl hne
  · rw [(hrows a ha).1, (hrows a ha).2.2]
    exact hne

end DebitCall

/-! ### Settlements -/

namespace SettleCall

variable {s : SettleCall} {m m' : Tables} {org ref : String}

theorem shrink_sameBooks (p : Pick) (hne : ¬(s.org = org ∧ s.reference = ref)) :
    SameBooks m (s.shrink p m) org ref := by
  unfold shrink
  split
  · refine SameBooks.of_delete (p := fun a => decide (a.key = s.holdKey p ∧ a.amountMicros = p.previous))
      rfl rfl fun a _ hp => ?_
    simp only [decide_eq_true_eq, holdKey, Allocation.key_eq] at hp
    rw [hp.1.1, hp.1.2.2.1]
    exact hne
  · refine ⟨rfl, rfl, ?_⟩
    simp only [Tables.allocationsOf, Tables.updateHold, List.filter_map]
    have hsame : ∀ a ∈ m.allocations.filter (fun a => decide (a.org = org ∧ a.debitRef = ref)),
        (if a.key = (s.org, .hold, s.reference, p.lotRef) ∧ a.amountMicros = p.previous then
          { a with amountMicros := p.previous - p.amount } else a) = a := by
      intro a ha
      rw [List.mem_filter, decide_eq_true_eq] at ha
      rw [if_neg]
      rintro ⟨hk, -⟩
      rw [Allocation.key_eq] at hk
      exact hne ⟨hk.1.symm.trans ha.2.1, hk.2.2.1.symm.trans ha.2.2⟩
    have hfilter : m.allocations.filter ((fun a => decide (a.org = org ∧ a.debitRef = ref)) ∘
        fun a => if a.key = (s.org, .hold, s.reference, p.lotRef) ∧ a.amountMicros = p.previous then
          { a with amountMicros := p.previous - p.amount } else a) =
        m.allocations.filter fun a => decide (a.org = org ∧ a.debitRef = ref) := by
      refine List.filter_congr fun a _ => ?_
      simp only [Function.comp]
      split <;> rfl
    rw [hfilter]
    exact (List.map_congr_left hsame).trans (List.map_id _)

theorem move_sameBooks {p : Pick} (h : s.move p m = some m')
    (hne : ¬(s.org = org ∧ s.reference = ref)) : SameBooks m m' org ref := by
  unfold move at h
  cases htype : s.type with
  | release =>
    simp only [htype, Option.some.injEq] at h
    subst h
    exact shrink_sameBooks p hne
  | capture =>
    simp only [htype] at h
    obtain ⟨-, -, -, rfl⟩ := Tables.insertAllocation_some h
    refine (shrink_sameBooks p hne).trans (SameBooks.of_append (E := []) ?_ rfl ?_ ?_)
    · simp
    · simp
    · intro a ha
      rw [List.mem_singleton.mp ha]
      exact hne

theorem moves_sameBooks (h : s.moves picks m = some m') (hne : ¬(s.org = org ∧ s.reference = ref)) :
    SameBooks m m' org ref := by
  induction picks generalizing m with
  | nil =>
    simp only [moves, Option.some.injEq] at h
    subst h
    exact .refl _ _ _
  | cons _ _ ih =>
    simp only [moves, Option.bind_eq_some_iff] at h
    obtain ⟨_, hmove, h⟩ := h
    exact (move_sameBooks hmove hne).trans (ih h)

theorem shrink_keys (p : Pick) (hn : (m.allocations.map Allocation.key).Nodup) :
    ((s.shrink p m).allocations.map Allocation.key).Nodup := by
  unfold shrink
  split
  · exact hn.sublist (List.filter_sublist.map _)
  · have hmap : ((m.updateHold s.org s.reference p.lotRef p.previous
        (p.previous - p.amount)).allocations.map Allocation.key) = m.allocations.map Allocation.key := by
      simp only [Tables.updateHold, List.map_map]
      refine List.map_congr_left fun a _ => ?_
      simp only [Function.comp]
      split <;> rfl
    rw [hmap]
    exact hn

theorem move_keys {p : Pick} (h : s.move p m = some m')
    (hn : (m.allocations.map Allocation.key).Nodup) :
    (m'.allocations.map Allocation.key).Nodup := by
  unfold move at h
  cases htype : s.type with
  | release =>
    simp only [htype, Option.some.injEq] at h
    subst h
    exact shrink_keys p hn
  | capture =>
    simp only [htype] at h
    obtain ⟨hfree, -, -, rfl⟩ := Tables.insertAllocation_some h
    exact Table.nodup_insert (shrink_keys p hn) hfree

theorem batch_keys {plan : SettlePlan s.amountMicros} (h : s.batch plan c m = some m')
    (hn : (m.allocations.map Allocation.key).Nodup) :
    (m'.allocations.map Allocation.key).Nodup := by
  obtain ⟨_, hmoves, -, -, rfl⟩ := batch_cases h
  clear h
  generalize plan.selection.picks = picks at hmoves
  induction picks generalizing m with
  | nil =>
    simp only [moves, Option.some.injEq] at hmoves
    subst hmoves
    exact hn
  | cons _ _ ih =>
    simp only [moves, Option.bind_eq_some_iff] at hmoves
    obtain ⟨_, hmove, hmoves⟩ := hmoves
    exact ih (move_keys hmove hn) hmoves

theorem entry_org_ref : s.entry.org = s.org ∧ s.entry.ref = s.reference := by
  unfold entry
  split <;> exact ⟨rfl, rfl⟩

/-- A settlement leaves the books of other references. -/
theorem batch_sameBooks {plan : SettlePlan s.amountMicros} (h : s.batch plan c m = some m')
    (hne : ¬(s.org = org ∧ s.reference = ref)) :
    SameBooks m m' org ref := by
  obtain ⟨_, hmoves, -, -, rfl⟩ := batch_cases h
  refine (moves_sameBooks hmoves hne).trans
    (SameBooks.of_append (E := [s.entry]) (R := []) rfl (by simp) ?_ (by simp))
  intro e he
  rw [List.mem_singleton.mp he, entry_org_ref.1, entry_org_ref.2]
  exact Or.inl hne

end SettleCall

/-! ### Funding and refunds -/

/-- A funding appends at most one entry, of a funding, and touches no allocation. -/
theorem FundCall.batch_books {f : FundCall} {m m' : Tables} (h : f.batch c m = some m') :
    ∃ lots entries, m' = { m with lots := m.lots ++ lots, ledger := m.ledger ++ entries } ∧
      (∀ l ∈ lots, l.key = (f.org, f.fundingRef) ∧ ∀ l' ∈ m.lots, l'.key ≠ l.key) ∧
      lots.length ≤ 1 ∧
      ∀ e ∈ entries, e = ⟨f.org, .funding, f.fundingRef, f.amountMicros, 0⟩ ∧
        ∀ e' ∈ m.ledger, e'.key ≠ e.key := by
  obtain ⟨l, ho, hr, -, rfl, -⟩ := FundCall.batch_cases h
  have hkey : l.key = (f.org, f.fundingRef) := Lot.key_eq.mpr ⟨ho, hr⟩
  have hlots : ∃ lots, m.insertLotOrIgnore l = { m with lots := m.lots ++ lots } ∧
      (∀ l ∈ lots, l.key = (f.org, f.fundingRef) ∧ ∀ l' ∈ m.lots, l'.key ≠ l.key) ∧
      lots.length ≤ 1 := by
    rcases Tables.insertLotOrIgnore_cases m l with ⟨-, heq⟩ | ⟨hfree, heq⟩
    · exact ⟨[], by rw [heq]; simp, by simp, by simp⟩
    · refine ⟨[l], heq, ?_, by simp⟩
      intro l₀ hl
      rw [List.mem_singleton.mp hl]
      exact ⟨hkey, hfree⟩
  obtain ⟨lots, hm, hspec, hlen⟩ := hlots
  rw [hm]
  rcases Tables.insertEntryOrIgnore_cases { m with lots := m.lots ++ lots }
      ⟨f.org, .funding, f.fundingRef, f.amountMicros, 0⟩ with ⟨-, heq⟩ | ⟨hfree, heq⟩
  · exact ⟨lots, [], by rw [heq]; simp, hspec, hlen, by simp⟩
  · refine ⟨lots, [_], heq, hspec, hlen, fun e he => ?_⟩
    rw [List.mem_singleton.mp he]
    exact ⟨rfl, hfree⟩

/-- A funding leaves all books. -/
theorem FundCall.batch_sameBooks {f : FundCall} {m m' : Tables} (h : f.batch c m = some m')
    (org ref : String) : SameBooks m m' org ref := by
  obtain ⟨_, _, rfl, -, -, hentries⟩ := FundCall.batch_books h
  refine SameBooks.of_append rfl (List.append_nil _).symm (fun e he => ?_) (by simp)
  rw [(hentries e he).1]
  exact Or.inr ⟨rfl, rfl⟩

/-- A refund's closure leaves the books of other references, and has none of its own held. -/
theorem RefundCall.closeHold_sameBooks {r : RefundCall} {closure : String × ℕ} {m m' : Tables}
    {org ref : String} (h : r.closeHold closure m = some m')
    (hne : ¬(r.org = org ∧ closure.1 = ref)) : SameBooks m m' org ref := by
  obtain ⟨-, -, rfl⟩ := RefundCall.closeHold_cases h
  have hdelete : SameBooks m (m.deleteHolds r.org closure.1) org ref := by
    refine SameBooks.of_delete
      (p := fun a => decide (a.org = r.org ∧ a.debitType = .hold ∧ a.debitRef = closure.1)) rfl rfl
      fun a _ hp => ?_
    simp only [decide_eq_true_eq] at hp
    rw [hp.1, hp.2.2]
    exact hne
  refine hdelete.trans (SameBooks.of_append
    (E := [⟨r.org, .release, closure.1, 0, -closure.2⟩]) (R := []) rfl (by simp) ?_ (by simp))
  intro e he
  rw [List.mem_singleton.mp he]
  exact Or.inl hne

end Takoserver.Wallet
