import Takoserver.Wallet.Clients

/-!
# What a committed batch did

One lemma for each statement and each batch of the wallet: a batch that
committed passed its guards, and left exactly the named rows.  Every invariant
of the wallet is derived from these, and none unfolds a batch again.

The allocations matter to the invariants through their sums over conditions on
the key, `Tables.sumKey`.  A settlement moves amounts between keys as long as
each hold row it selected is still there with the amount it read
(`SettleCall.current`).
-/

namespace Takoserver.Wallet

/-! ### Statements -/

/-- `SUM(amount_micros)` of the allocations whose key meets a condition. -/
def Tables.sumKey (t : Tables) (q : String × DebitType × String × String → Bool) : ℕ :=
  Table.sumIf (fun a => q a.key) Allocation.amountMicros t.allocations

variable {t t' : Tables} {org ref : String} {c : Circumstance} {picks : List Pick}

/-- A lookup under a key answers with the row of that key, if there is one. -/
theorem Tables.entry_none {type : EntryType} (h : (t.entry org type ref).isSome = false) :
    ∀ e ∈ t.ledger, e.key ≠ (org, type, ref) :=
  Table.find_none.mp (by simpa [Tables.entry] using h)

theorem Tables.entry_some {type : EntryType} {e : Entry} (h : t.entry org type ref = some e) :
    e ∈ t.ledger ∧ e.key = (org, type, ref) :=
  Table.find_some h

theorem Tables.lot_some {l : Lot} (h : t.lot org ref = some l) :
    l ∈ t.lots ∧ l.org = org ∧ l.ref = ref := by
  obtain ⟨hl, hk⟩ := Table.find_some h
  exact ⟨hl, Lot.key_eq.mp hk⟩

theorem Tables.insertEntry_some {e : Entry} (h : t.insertEntry e = some t') :
    (∀ x ∈ t.ledger, x.key ≠ e.key) ∧ t' = { t with ledger := t.ledger ++ [e] } := by
  unfold Tables.insertEntry at h
  split at h
  · cases h
  · next hn =>
    exact ⟨Tables.entry_none (by simpa using hn), (Option.some.inj h).symm⟩

/-- An `INSERT OR IGNORE` into the ledger appends an entry under a free key, or does nothing. -/
theorem Tables.insertEntryOrIgnore_cases (t : Tables) (e : Entry) :
    ((t.entry e.org e.type e.ref).isSome ∧ t.insertEntryOrIgnore e = t) ∨
      ((∀ x ∈ t.ledger, x.key ≠ e.key) ∧
        t.insertEntryOrIgnore e = { t with ledger := t.ledger ++ [e] }) := by
  unfold Tables.insertEntryOrIgnore Tables.insertEntry
  split
  · next h => exact Or.inl ⟨h, rfl⟩
  · next h => exact Or.inr ⟨Tables.entry_none (by simpa using h), rfl⟩

theorem Tables.insertLotOrIgnore_cases (t : Tables) (l : Lot) :
    ((t.lot l.org l.ref).isSome ∧ t.insertLotOrIgnore l = t) ∨
      ((∀ x ∈ t.lots, x.key ≠ l.key) ∧
        t.insertLotOrIgnore l = { t with lots := t.lots ++ [l] }) := by
  unfold Tables.insertLotOrIgnore
  split
  · next h => exact Or.inl ⟨h, rfl⟩
  · next h => exact Or.inr ⟨Table.find_none.mp (by simpa [Tables.lot, Lot.key] using h), rfl⟩

theorem Tables.fundOrIgnore_same (t : Tables) (l : Lot) (e : Entry) :
    ((t.insertLotOrIgnore l).insertEntryOrIgnore e).allocations = t.allocations ∧
      ((t.insertLotOrIgnore l).insertEntryOrIgnore e).fences = t.fences ∧
        ∀ x ∈ ((t.insertLotOrIgnore l).insertEntryOrIgnore e).lots, x ∈ t.lots ∨ x = l := by
  rcases t.insertLotOrIgnore_cases l with ⟨-, hl⟩ | ⟨-, hl⟩ <;>
    rcases (t.insertLotOrIgnore l).insertEntryOrIgnore_cases e with ⟨-, he⟩ | ⟨-, he⟩ <;>
    rw [he, hl] <;> simp +contextual

theorem Tables.insertEntryOrIgnore_same (t : Tables) (e : Entry) :
    (t.insertEntryOrIgnore e).lots = t.lots ∧ (t.insertEntryOrIgnore e).fences = t.fences ∧
      (t.insertEntryOrIgnore e).allocations = t.allocations := by
  rcases t.insertEntryOrIgnore_cases e with ⟨-, heq⟩ | ⟨-, heq⟩ <;> rw [heq] <;>
    exact ⟨rfl, rfl, rfl⟩

theorem Tables.insertAllocation_some {a : Allocation} (h : t.insertAllocation a = some t') :
    (∀ x ∈ t.allocations, x.key ≠ a.key) ∧ (t.lot a.org a.lotRef).isSome ∧ 0 < a.amountMicros ∧
      t' = { t with allocations := t.allocations ++ [a] } := by
  unfold Tables.insertAllocation at h
  split at h
  · cases h
  · next hc =>
    simp only [not_or, Bool.not_eq_true, Option.isSome_eq_false_iff, Option.isNone_iff_eq_none,
      ← Option.isSome_iff_ne_none] at hc
    exact ⟨Table.find_none.mp hc.1, hc.2.1, Nat.pos_of_ne_zero hc.2.2, (Option.some.inj h).symm⟩

theorem Tables.insertRefund_some {r : Refund} (h : t.insertRefund r = some t') :
    0 < r.amountMicros ∧ t' = { t with refunds := t.refunds ++ [r] } := by
  unfold Tables.insertRefund at h
  split at h
  · cases h
  · next hc =>
    rw [not_or] at hc
    exact ⟨Nat.pos_of_ne_zero hc.2, (Option.some.inj h).symm⟩

theorem Tables.takes_true {admits : Lot → Bool} {a : Allocation} (h : t.takes admits a = true) :
    (∀ x ∈ t.allocations, x.key ≠ a.key) ∧
      ∃ l, t.lot a.org a.lotRef = some l ∧ (a.amountMicros : ℤ) ≤ t.remaining l := by
  unfold Tables.takes at h
  rw [Bool.and_eq_true] at h
  refine ⟨Table.find_none.mp (by simpa using h.1), ?_⟩
  cases hl : t.lot a.org a.lotRef with
  | none => simp [hl] at h
  | some l =>
    simp only [hl, Bool.and_eq_true, decide_eq_true_eq] at h
    exact ⟨l, rfl, h.2.2⟩

/-! ### Funding -/

/-- A funding that committed left its lot and its entry, new or as they were. -/
theorem FundCall.batch_cases {f : FundCall} (h : f.batch c t = some t') :
    ∃ l : Lot, l.org = f.org ∧ l.ref = f.fundingRef ∧ l.amountMicros = f.amountMicros ∧
      t' = (t.insertLotOrIgnore l).insertEntryOrIgnore
        ⟨f.org, .funding, f.fundingRef, f.amountMicros, 0⟩ ∧
      (t'.lot f.org f.fundingRef).any f.lotMatches = true ∧
      (t'.entry f.org .funding f.fundingRef).any f.entryMatches = true := by
  unfold FundCall.batch at h
  simp only [Option.bind_eq_bind, Option.bind_eq_some_iff] at h
  obtain ⟨_, h₁, h⟩ := h
  obtain ⟨rfl, -⟩ := Table.guard_some h₁
  obtain ⟨rfl, hv⟩ := Table.guard_some h
  simp only [Bool.and_eq_true] at hv
  exact ⟨_, rfl, rfl, rfl, rfl, hv.1.2, hv.2⟩

/-! ### Debits -/

namespace DebitCall

variable {d : DebitCall}

/-- The reference of the debit is in the ledger. -/
def recorded (d : DebitCall) (t : Tables) : Bool := (t.entry d.org d.entryType d.reference).isSome

/-- No planned row would be inserted: each key is taken, or its lot does not have the amount. -/
def idle (d : DebitCall) (c : Circumstance) (picks : List Pick) (t : Tables) : Bool :=
  picks.all fun p => !t.takes (t.lotPredicate c d.admission) (d.allocation p)

theorem allocate_cons (c : Circumstance) (p : Pick) (picks : List Pick) (t : Tables) :
    d.allocate c (p :: picks) t =
      d.allocate c picks (t.insertAllocationIfCovered (t.lotPredicate c d.admission)
        (d.allocation p)) := rfl

/-- Inserting changes nothing where no planned row would be inserted. -/
theorem allocate_of_idle (h : d.idle c picks t = true) : d.allocate c picks t = t := by
  induction picks with
  | nil => rfl
  | cons _ _ ih =>
    simp only [idle, List.all_cons, Bool.and_eq_true, Bool.not_eq_true'] at h
    rw [allocate_cons, Tables.insertAllocationIfCovered, h.1, if_neg (by simp)]
    exact ih h.2

theorem allocate_cases (c : Circumstance) (picks : List Pick) (t : Tables)
    (hn : (t.allocations.map Allocation.key).Nodup) :
    ∃ rows : List Allocation, d.allocate c picks t = { t with allocations := t.allocations ++ rows } ∧
      (∀ r ∈ rows, r.org = d.org ∧ r.debitType = d.type ∧ r.debitRef = d.reference) ∧
      ((t.allocations ++ rows).map Allocation.key).Nodup := by
  induction picks generalizing t with
  | nil => exact ⟨[], by simp [allocate], by simp, by simpa using hn⟩
  | cons p _ ih =>
    rw [allocate_cons, Tables.insertAllocationIfCovered]
    split
    · next htakes =>
      have hfree := (Tables.takes_true htakes).1
      obtain ⟨rows, heq, hrows, hnodup⟩ :=
        ih { t with allocations := t.allocations ++ [d.allocation p] } (Table.nodup_insert hn hfree)
      refine ⟨d.allocation p :: rows, ?_, ?_, ?_⟩
      · rw [heq]
        simp
      · intro r hr
        rcases List.mem_cons.mp hr with rfl | hr
        · exact ⟨rfl, rfl, rfl⟩
        · exact hrows r hr
      · simpa using hnodup
    · exact ih t hn

/-- A debit that committed passed its guards: its reference was unused if it is a roll-up's,
and the allocations of its reference now add up to its amount. -/
theorem batch_cases {now : Instant} (h : d.batch picks now c t = some t') :
    (d.kind = .rollUp → d.unused t = true) ∧
      (d.allocate { c with now := now } picks t).allocatedBy d.org d.type d.reference =
        d.amountMicros ∧
      t' = (d.allocate { c with now := now } picks t).insertEntryOrIgnore d.entry := by
  unfold batch at h
  simp only [Option.bind_eq_bind, Option.bind_eq_some_iff, Option.pure_def, Option.some.injEq] at h
  obtain ⟨_, h₁, _, h₂, _, h₃, rfl⟩ := h
  obtain ⟨rfl, hv⟩ := Table.guard_some h₁
  obtain ⟨rfl, -⟩ := Table.guard_some h₂
  obtain ⟨rfl, hsum⟩ := Table.guard_some h₃
  refine ⟨?_, by simpa using hsum, rfl⟩
  intro hkind
  simp only [hkind, Bool.and_eq_true, Bool.or_eq_true, decide_eq_true_eq, ne_eq,
    not_true_eq_false, false_or] at hv
  exact hv.2

end DebitCall

/-! ### Settlements -/

namespace SettleCall

variable {s : SettleCall}

/-- The key of the hold row a pick takes from, and of the capture row it may go to. -/
def holdKey (s : SettleCall) (p : Pick) : String × DebitType × String × String :=
  (s.org, .hold, s.reference, p.lotRef)

def captureKey (s : SettleCall) (p : Pick) : String × DebitType × String × String :=
  (s.org, .capture, s.reference, p.lotRef)

/-- The hold row of a pick still has the amount the plan read. -/
def finds (s : SettleCall) (t : Tables) (p : Pick) : Bool :=
  t.allocations.any fun a => a.key = s.holdKey p ∧ a.amountMicros = p.previous

/-- Every hold row the plan selected still has the amount it read. -/
def current (s : SettleCall) (picks : List Pick) (t : Tables) : Bool := picks.all (s.finds t)

/-- Only the allocations differ. -/
def SameButAllocations (t t' : Tables) : Prop :=
  t'.lots = t.lots ∧ t'.ledger = t.ledger ∧ t'.refunds = t.refunds ∧ t'.fences = t.fences

theorem SameButAllocations.refl (t : Tables) : SameButAllocations t t := ⟨rfl, rfl, rfl, rfl⟩

theorem SameButAllocations.trans {u v : Tables} (h : SameButAllocations t u)
    (h' : SameButAllocations u v) : SameButAllocations t v :=
  ⟨h'.1.trans h.1, h'.2.1.trans h.2.1, h'.2.2.1.trans h.2.2.1, h'.2.2.2.trans h.2.2.2⟩

theorem shrink_same (p : Pick) (t : Tables) : SameButAllocations t (s.shrink p t) := by
  unfold shrink
  split <;> exact ⟨rfl, rfl, rfl, rfl⟩

variable {p : Pick}

/-- Taking a pick out of its row takes its amount out of every sum the row counts in, and
leaves the rows of other keys. -/
theorem shrink_spec (hn : (t.allocations.map Allocation.key).Nodup) (hle : p.amount ≤ p.previous)
    (hfinds : s.finds t p = true) :
    ((s.shrink p t).allocations.map Allocation.key).Nodup ∧
      (∀ q, (s.shrink p t).sumKey q + (if q (s.holdKey p) then p.amount else 0) = t.sumKey q) ∧
      ∀ a ∈ t.allocations, a.key ≠ s.holdKey p → a ∈ (s.shrink p t).allocations := by
  simp only [finds, List.any_eq_true, decide_eq_true_eq] at hfinds
  obtain ⟨row, hrow, hkey, hamount⟩ := hfinds
  -- the row of the key is this one, so a condition on its amount adds nothing to one on its key
  have honly : ∀ a ∈ t.allocations, a.key = s.holdKey p → a = row := fun a ha hk =>
    Table.eq_of_key hn ha hrow (hk.trans hkey.symm)
  unfold shrink
  split
  · next hall =>
    have herase : (t.deleteHold s.org s.reference p.lotRef p.previous).allocations =
        Table.erase Allocation.key row.key t.allocations := by
      refine List.filter_congr fun a ha => ?_
      by_cases hk : a.key = s.holdKey p
      · obtain rfl := honly a ha hk
        simp [hamount, holdKey, hk]
      · have : a.key ≠ row.key := fun h => hk (h.trans hkey)
        simp [this, show ¬a.key = (s.org, DebitType.hold, s.reference, p.lotRef) from hk]
    unfold Tables.sumKey
    rw [herase]
    refine ⟨Table.nodup_erase hn, fun q => ?_, fun a ha hk => ?_⟩
    · have := Table.sumIf_erase (p := fun a => q a.key) (f := Allocation.amountMicros) hn hrow
      rw [hall, ← hamount, ← hkey]
      exact this
    · exact Table.mem_erase.mpr ⟨ha, fun h => hk (h.trans hkey)⟩
  · let next : Allocation := { row with amountMicros := p.previous - p.amount }
    have hput : (t.updateHold s.org s.reference p.lotRef p.previous
        (p.previous - p.amount)).allocations = Table.put Allocation.key next t.allocations := by
      refine List.map_congr_left fun a ha => ?_
      by_cases hk : a.key = s.holdKey p
      · obtain rfl := honly a ha hk
        have hn : next.key = a.key := rfl
        simp only [hn, if_true]
        rw [if_pos ⟨hk, hamount⟩]
      · have hne : a.key ≠ next.key := fun h => hk (h.trans hkey)
        rw [if_neg hne, if_neg fun h => hk h.1]
    unfold Tables.sumKey
    rw [hput]
    refine ⟨by simpa using hn, fun q => ?_, fun a ha hk => ?_⟩
    · have hsum : Table.sumIf (fun a => q a.key) Allocation.amountMicros
            (Table.put Allocation.key next t.allocations) +
            (if q row.key then row.amountMicros else 0) =
          Table.sumIf (fun a => q a.key) Allocation.amountMicros t.allocations +
            if q next.key then next.amountMicros else 0 := Table.sumIf_put hn hrow rfl
      have hk : q next.key = q (s.holdKey p) := congrArg q hkey
      have hkr : q row.key = q (s.holdKey p) := congrArg q hkey
      simp only [hk, hkr, hamount] at hsum
      cases hq : q (s.holdKey p)
      · simpa [hq] using hsum
      · simp only [hq, if_true] at hsum ⊢
        have : next.amountMicros = p.previous - p.amount := rfl
        omega
    · exact Table.mem_put_of_ne ha fun h => hk (h.trans hkey)

theorem move_same (h : s.move p t = some t') :
    SameButAllocations t t' := by
  unfold move at h
  cases htype : s.type with
  | release =>
    simp only [htype, Option.some.injEq] at h
    subst h
    exact shrink_same p t
  | capture =>
    simp only [htype] at h
    obtain ⟨-, -, -, rfl⟩ := Tables.insertAllocation_some h
    exact (shrink_same p t).trans ⟨rfl, rfl, rfl, rfl⟩

theorem moves_same (h : s.moves picks t = some t') :
    SameButAllocations t t' := by
  induction picks generalizing t with
  | nil =>
    simp only [moves, Option.some.injEq] at h
    subst h
    exact .refl _
  | cons _ _ ih =>
    simp only [moves, Option.bind_eq_some_iff] at h
    obtain ⟨_, hmove, h⟩ := h
    exact (move_same hmove).trans (ih h)

theorem move_spec (hn : (t.allocations.map Allocation.key).Nodup) (hle : p.amount ≤ p.previous)
    (hfinds : s.finds t p = true) (h : s.move p t = some t') :
    (t'.allocations.map Allocation.key).Nodup ∧
      (∀ q, t'.sumKey q + (if q (s.holdKey p) then p.amount else 0) =
        t.sumKey q + if s.type = .capture ∧ q (s.captureKey p) then p.amount else 0) ∧
      ∀ a ∈ t.allocations, a.key ≠ s.holdKey p → a ∈ t'.allocations := by
  obtain ⟨hnodup, hsum, hmem⟩ := shrink_spec hn hle hfinds
  unfold move at h
  cases htype : s.type with
  | release =>
    simp only [htype, Option.some.injEq] at h
    subst h
    refine ⟨hnodup, fun q => ?_, hmem⟩
    simpa using hsum q
  | capture =>
    simp only [htype] at h
    obtain ⟨hfree, -, -, rfl⟩ := Tables.insertAllocation_some h
    refine ⟨Table.nodup_insert hnodup hfree, fun q => ?_,
      fun a ha hk => List.mem_append_left _ (hmem a ha hk)⟩
    have hq := hsum q
    have hkey : Allocation.key ⟨s.org, .capture, s.reference, p.lotRef, p.amount⟩ = s.captureKey p :=
      rfl
    simp only [Tables.sumKey, Table.sumIf_append, Table.sumIf_cons, Table.sumIf_nil, add_zero,
      hkey, true_and] at hq ⊢
    omega

/-- The moves of a settlement whose selected rows are current, on every sum over keys: what
each pick takes leaves its hold row, and a capture puts it in its capture row. -/
theorem moves_spec (hn : (t.allocations.map Allocation.key).Nodup)
    (hlots : (picks.map Pick.lotRef).Nodup) (hle : ∀ p ∈ picks, p.amount ≤ p.previous)
    (hcurrent : s.current picks t = true) (h : s.moves picks t = some t') :
    (t'.allocations.map Allocation.key).Nodup ∧
      ∀ q, t'.sumKey q + Table.sumIf (fun p => q (s.holdKey p)) Pick.amount picks =
        t.sumKey q +
          Table.sumIf (fun p => s.type = .capture ∧ q (s.captureKey p)) Pick.amount picks := by
  induction picks generalizing t with
  | nil =>
    simp only [moves, Option.some.injEq] at h
    subst h
    exact ⟨hn, by simp⟩
  | cons p picks ih =>
    simp only [moves, Option.bind_eq_some_iff] at h
    obtain ⟨t₁, hmove, h⟩ := h
    simp only [current, List.all_cons, Bool.and_eq_true] at hcurrent
    simp only [List.map_cons, List.nodup_cons, List.mem_map, not_exists, not_and] at hlots
    obtain ⟨hn₁, hsum₁, hmem₁⟩ := move_spec hn (hle p List.mem_cons_self) hcurrent.1 hmove
    -- the rows of the other picks have other keys, so the first move leaves them
    have hcurrent₁ : s.current picks t₁ = true := by
      unfold current
      rw [List.all_eq_true]
      intro p' hp'
      have hfinds := List.all_eq_true.mp hcurrent.2 p' hp'
      simp only [finds, List.any_eq_true, decide_eq_true_eq] at hfinds ⊢
      obtain ⟨a, ha, hk, hamount⟩ := hfinds
      refine ⟨a, hmem₁ a ha ?_, hk, hamount⟩
      intro hk'
      have : p'.lotRef = p.lotRef := by simpa [holdKey] using hk.symm.trans hk'
      exact hlots.1 p' hp' this
    obtain ⟨hn', hsum⟩ := ih hn₁ hlots.2
      (fun p' hp' => hle p' (List.mem_cons_of_mem _ hp')) hcurrent₁ h
    refine ⟨hn', fun q => ?_⟩
    have h₁ := hsum₁ q
    have h₂ := hsum q
    simp only [Table.sumIf_cons, decide_eq_true_eq] at h₂ ⊢
    omega

/-- A settlement that committed: its moves, its guard, and its entry under a free key. -/
theorem batch_cases {plan : SettlePlan s.amountMicros} (h : s.batch plan c t = some t') :
    ∃ t₁, s.moves plan.selection.picks t = some t₁ ∧ s.settled plan t₁ = true ∧
      (∀ e ∈ t₁.ledger, e.key ≠ s.entry.key) ∧
      t' = { t₁ with ledger := t₁.ledger ++ [s.entry] } := by
  unfold batch at h
  simp only [Option.bind_eq_bind, Option.bind_eq_some_iff] at h
  obtain ⟨_, h₀, _, h₁, t₂, h₂, h₃⟩ := h
  obtain ⟨rfl, -⟩ := Table.guard_some h₀
  obtain ⟨rfl, hs⟩ := Table.guard_some h₂
  obtain ⟨hfree, rfl⟩ := Tables.insertEntry_some h₃
  exact ⟨t₂, h₁, hs, hfree, rfl⟩

end SettleCall

/-! ### Refunds -/

namespace RefundCall

variable {r : RefundCall}

/-- A closure that committed: what was held for its reference is what is deleted and what
its release entry takes back. -/
theorem closeHold_cases {closure : String × ℕ} (h : r.closeHold closure t = some t') :
    t.allocatedBy r.org .hold closure.1 = closure.2 ∧
      (∀ e ∈ t.ledger, e.key ≠ (r.org, .release, closure.1)) ∧
      t' = { t with
        ledger := t.ledger ++ [⟨r.org, .release, closure.1, 0, -closure.2⟩]
        allocations := (t.deleteHolds r.org closure.1).allocations } := by
  unfold closeHold at h
  simp only [Option.bind_eq_bind, Option.bind_eq_some_iff] at h
  obtain ⟨_, h₀, h₁⟩ := h
  obtain ⟨rfl, hv⟩ := Table.guard_some h₀
  obtain ⟨hfree, rfl⟩ := Tables.insertEntry_some h₁
  simp only [decide_eq_true_eq] at hv
  exact ⟨hv.1, hfree, rfl⟩

theorem closeHolds_induction {P : Tables → Prop} {closures : List (String × ℕ)}
    (hstep : ∀ closure t t', P t → r.closeHold closure t = some t' → P t')
    (h : r.closeHolds closures t = some t') (ht : P t) : P t' := by
  induction closures generalizing t with
  | nil =>
    simp only [closeHolds, Option.some.injEq] at h
    rwa [← h]
  | cons closure _ ih =>
    simp only [closeHolds, Option.bind_eq_some_iff] at h
    obtain ⟨t₁, h₁, h⟩ := h
    exact ih h (hstep closure t t₁ ht h₁)

theorem closeHolds_same {closures : List (String × ℕ)} (h : r.closeHolds closures t = some t') :
    t'.lots = t.lots ∧ t'.fences = t.fences ∧ ∀ a ∈ t'.allocations, a ∈ t.allocations := by
  refine closeHolds_induction (P := fun u => u.lots = t.lots ∧ u.fences = t.fences ∧
    ∀ a ∈ u.allocations, a ∈ t.allocations) (fun closure u u' hu hc => ?_) h
    ⟨rfl, rfl, fun _ h => h⟩
  obtain ⟨-, -, rfl⟩ := closeHold_cases hc
  exact ⟨hu.1, hu.2.1, fun a ha => hu.2.2 a (List.mem_of_mem_filter ha)⟩

/-- A refund that committed: its fence held and no refund had come between, its holds were
closed, and its row is the only other change but for its fence. -/
theorem batch_cases {plan : RefundPlan} (h : r.batch plan c t = some t') :
    t.refundSum Refund.amountMicros r.org r.fundingRef = plan.prior.refunded ∧
      ∃ t₁ row, r.closeHolds plan.closures t = some t₁ ∧ r.consistent plan t₁ = true ∧
        row.org = r.org ∧ row.fundingRef = r.fundingRef ∧ 0 < row.amountMicros ∧
        row.debitMicros = plan.debit ∧ t'.lots = t₁.lots ∧ t'.ledger = t₁.ledger ∧
        t'.allocations = t₁.allocations ∧ t'.refunds = t₁.refunds ++ [row] := by
  unfold batch at h
  simp only [Option.bind_eq_bind, Option.bind_eq_some_iff, Option.pure_def, Option.some.injEq] at h
  obtain ⟨_, h₀, _, h₁, t₂, h₂, _, h₃, rfl⟩ := h
  obtain ⟨rfl, hv⟩ := Table.guard_some h₀
  obtain ⟨rfl, hconsistent⟩ := Table.guard_some h₂
  obtain ⟨hpos, rfl⟩ := Tables.insertRefund_some h₃
  simp only [fenceHolds, Bool.and_eq_true, decide_eq_true_eq] at hv
  refine ⟨hv.2.2.1, t₂, _, h₁, hconsistent, rfl, rfl, hpos, rfl, ?_⟩
  split <;> exact ⟨rfl, rfl, rfl, rfl⟩

end RefundCall

end Takoserver.Wallet
