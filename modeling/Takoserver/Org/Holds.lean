import Takoserver.Org.Effects

/-!
# Holds and their books

What every hold row is like, and what the wallet has of it: its whole amount while it
is live, what was captured of it afterwards, and nothing under a reference that has no
row.  A live row may close; a closed row never changes.
-/

namespace Takoserver.Org

open Wallet (Instant Pick SameBooks Blank Allocation)

variable {t t' : Tables} {c : Circumstance}

/-! ### What becomes of a row -/

namespace Hold

/-- The row as it was while it was live. -/
def opening (h : Hold) : Hold :=
  { h with
    state := .live
    capturedMicros := 0
    releasedMicros := 0
    captureFingerprint := none
    actualMicros := none
    closedAt := none
    closureReason := none }

/-- `r` is the live row `h`, closed. -/
structure ClosesTo (h r : Hold) : Prop where
  live : h.state = .live
  closed : r.state ≠ .live
  opening : r.opening = h.opening

/-- `r` is the row `h`, or `h` closed. -/
def Evolves (h r : Hold) : Prop := r = h ∨ h.ClosesTo r

variable {h r r' : Hold}

theorem ClosesTo.key (hc : h.ClosesTo r) : r.key = h.key := by
  show r.opening.key = h.opening.key
  rw [hc.opening]

theorem ClosesTo.fingerprint (hc : h.ClosesTo r) : r.fingerprint = h.fingerprint := by
  show r.opening.fingerprint = h.opening.fingerprint
  rw [hc.opening]

theorem Evolves.refl (h : Hold) : h.Evolves h := Or.inl rfl

theorem Evolves.trans (h₁ : h.Evolves r) (h₂ : r.Evolves r') : h.Evolves r' := by
  rcases h₁ with rfl | h₁
  · exact h₂
  · rcases h₂ with rfl | h₂
    · exact Or.inr h₁
    · exact absurd h₂.live h₁.closed

theorem Evolves.key (he : h.Evolves r) : r.key = h.key := by
  rcases he with rfl | hc
  · rfl
  · exact hc.key

theorem Evolves.fingerprint (he : h.Evolves r) : r.fingerprint = h.fingerprint := by
  rcases he with rfl | hc
  · rfl
  · exact hc.fingerprint

/-- A closed row never changes. -/
theorem Evolves.eq_of_closed (he : h.Evolves r) (hclosed : h.state ≠ .live) : r = h := by
  rcases he with rfl | hc
  · rfl
  · exact absurd hc.live hclosed

end Hold

/-- Every hold row is there still, or is there closed. -/
def Tables.HoldsEvolve (t t' : Tables) : Prop := ∀ h ∈ t.holds, ∃ r ∈ t'.holds, h.Evolves r

theorem Tables.HoldsEvolve.refl (t : Tables) : t.HoldsEvolve t := fun h hh => ⟨h, hh, .refl h⟩

theorem Tables.HoldsEvolve.trans {t'' : Tables} (h : t.HoldsEvolve t') (h' : t'.HoldsEvolve t'') :
    t.HoldsEvolve t'' := by
  intro row hrow
  obtain ⟨r, hr, he⟩ := h row hrow
  obtain ⟨r', hr', he'⟩ := h' r hr
  exact ⟨r', hr', he.trans he'⟩

theorem Tables.HoldsEvolve.of_eq (h : t'.holds = t.holds) : t.HoldsEvolve t' := fun row hrow =>
  ⟨row, by rw [h]; exact hrow, .refl row⟩

/-! ### What a row is like -/

/-- The arguments of a capture passed its checks. -/
structure CaptureSignature.Valid (f : CaptureSignature) : Prop where
  amount : spendableMicros f.amountMicros = true
  fingerprint : validFingerprint f.measurementFingerprint = true
  actual : decimalInteger f.actualMicros = true

/-- What every row of a hold is like. -/
structure Hold.Sound (h : Hold) : Prop where
  live : h.state = .live → h = h.opening
  /-- Closed, it is captured and released as a whole. -/
  total : h.state ≠ .live → h.capturedMicros + h.releasedMicros = h.amountMicros
  captured : h.state = .captured ↔ 0 < h.capturedMicros
  /-- A capture or a release was stamped before the deadline. -/
  inTime : h.state = .captured ∨ h.state = .released → h.closureReason = none →
    ∀ e ∈ h.expiresAt, ∃ at' ∈ h.closedAt, at' < e
  /-- An expiry was stamped at the deadline or after it. -/
  expired : h.state = .expired → ∃ e ∈ h.expiresAt, ∃ at' ∈ h.closedAt, e ≤ at'
  refunded : h.closureReason ≠ none →
    h.closureReason = some "refund" ∧ h.state = .released ∧ h.capturedMicros = 0
  /-- A row without a signature is one that a release left under an unknown reference. -/
  tombstone : h.fingerprint = none → ∃ now, h = Org.tombstone h.org h.ref now
  admitted : ∀ f ∈ h.fingerprint, f.amountMicros = h.amountMicros ∧ h.expiresAt.isSome ∧
    validReference h.ref = true ∧ spendableMicros h.amountMicros = true ∧
    validFingerprint f.measurementFingerprint = true
  settled : ∀ f ∈ h.captureFingerprint, f.Valid ∧ f.amountMicros = h.capturedMicros ∧
    (h.state = .captured ∨ h.state = .released)

/-- What is held for a row. -/
def Hold.outstanding (h : Hold) : ℕ := if h.state = .live then h.amountMicros else 0

/-- The books of the reference of a hold. -/
structure Hold.Booked (h : Hold) (m : Wallet.Tables) : Prop where
  held : m.heldOf h.org h.ledgerRef = h.outstanding
  holds : m.allocatedBy h.org .hold h.ledgerRef = h.outstanding
  captures : m.allocatedBy h.org .capture h.ledgerRef = h.capturedMicros

variable {m : Wallet.Tables} {org ref : String}

theorem Hold.Booked.frame {h : Hold} {m' : Wallet.Tables} (hb : h.Booked m)
    (hs : SameBooks m m' h.org h.ledgerRef) : h.Booked m' :=
  ⟨hs.held.trans hb.held, (hs.allocatedBy .hold).trans hb.holds,
    (hs.allocatedBy .capture).trans hb.captures⟩

/-- Every hold row is sound and booked, and no other reference of a hold has any books. -/
structure HoldsKept (t : Tables) : Prop where
  allocation_keys : (t.money.allocations.map Allocation.key).Nodup
  rows : Table.Kept Hold.key (fun h => h.Sound ∧ h.Booked t.money)
    (fun k => Blank t.money k.1 (holdRef k.2)) t.holds

namespace HoldsKept

theorem held_iff (hk : HoldsKept t) {h : Hold} :
    t.held org ref = some h ↔ h ∈ t.holds ∧ h.key = (org, ref) :=
  Table.find_eq_some_iff hk.rows.keys

section

variable (hk : HoldsKept t) {h : Hold} (hh : h ∈ t.holds)

include hk hh

theorem held_of_mem :
    t.held h.org h.ref = some h :=
  Table.find_of_mem hk.rows.keys hh

theorem sound : h.Sound := (hk.rows.rows h hh).1

theorem booked : h.Booked t.money :=
  (hk.rows.rows h hh).2

end

theorem blank (hk : HoldsKept t) (hnone : t.held org ref = none) :
    Blank t.money org (holdRef ref) :=
  hk.rows.free (org, ref) (Table.find_none.mp hnone)

/-- A row of another key is booked under another reference. -/
theorem ref_ne {h r : Hold} (hne : h.key ≠ r.key) : ¬(r.org = h.org ∧ r.ledgerRef = h.ledgerRef) := by
  rintro ⟨ho, hr⟩
  exact hne (Hold.key_eq.mpr ⟨ho.symm, holdRef_inj.mp hr.symm⟩)

/-- A batch that leaves the rows, and the books of every hold, keeps them. -/
theorem frame (hk : HoldsKept t) (hrows : t'.holds = t.holds)
    (hn : (t'.money.allocations.map Allocation.key).Nodup)
    (hs : ∀ org ref, SameBooks t.money t'.money org (holdRef ref)) : HoldsKept t' := by
  refine ⟨hn, ?_⟩
  rw [hrows]
  exact hk.rows.mono (fun h _ hh => ⟨hh.1, hh.2.frame (hs _ _)⟩) fun k hb => (hs _ _).blank hb

theorem insert (hk : HoldsKept t) {h : Hold} (hfree : t.held h.org h.ref = none)
    (hn : (m.allocations.map Allocation.key).Nodup) (hsound : h.Sound) (hbooked : h.Booked m)
    (hs : ∀ org ref, ¬(h.org = org ∧ h.ledgerRef = holdRef ref) →
      SameBooks t.money m org (holdRef ref)) :
    HoldsKept { t with money := m, holds := t.holds ++ [h] } ∧
      t.HoldsEvolve { t with money := m, holds := t.holds ++ [h] } := by
  refine ⟨⟨hn, ?_⟩, fun r hr => ⟨r, List.mem_append_left _ hr, .refl r⟩⟩
  refine hk.rows.insert (Table.find_none.mp hfree) ⟨hsound, hbooked⟩ ?_ ?_
  · intro r _ hne hr
    exact ⟨hr.1, hr.2.frame (hs r.org r.ref (ref_ne hne))⟩
  · intro k hne hb
    refine (hs k.1 k.2 ?_).blank hb
    rintro ⟨ho, hr⟩
    exact hne (by rw [Hold.key, ho, holdRef_inj.mp hr])

theorem update (hk : HoldsKept t) {p : Hold → Bool} {f : Hold → Hold} {row : Hold}
    (hrow : row ∈ t.holds) (hp : p row = true) (hone : ∀ r ∈ t.holds, p r = true → r.key = row.key)
    (hcloses : row.ClosesTo (f row)) (hn : (m.allocations.map Allocation.key).Nodup)
    (hsound : (f row).Sound) (hbooked : (f row).Booked m)
    (hs : ∀ org ref, ¬(row.org = org ∧ row.ledgerRef = holdRef ref) →
      SameBooks t.money m org (holdRef ref)) :
    HoldsKept { t with money := m, holds := Table.update p f t.holds } ∧
      t.HoldsEvolve { t with money := m, holds := Table.update p f t.holds } := by
  refine ⟨⟨hn, ?_⟩, fun r hr => ?_⟩
  · refine hk.rows.update hrow hone hp hcloses.key ⟨hsound, hbooked⟩ ?_ ?_
    · intro r _ hne hr
      exact ⟨hr.1, hr.2.frame (hs r.org r.ref (ref_ne hne))⟩
    · intro k hne hb
      refine (hs k.1 k.2 ?_).blank hb
      rintro ⟨ho, hr⟩
      exact hne (by rw [Hold.key, ho, holdRef_inj.mp hr])
  · refine ⟨_, Table.mem_update_of_mem (p := p) (f := f) hr, ?_⟩
    split
    · next hpr =>
      rw [Table.eq_of_key hk.rows.keys hr hrow (hone r hr hpr)]
      exact Or.inr hcloses
    · exact .refl r

/-! ### The batches on holds -/

theorem booked_of_debit {x : HoldInput} {plan : HoldPlan x.amountMicros}
    (hb : Blank t.money x.org (holdRef x.reference))
    (hn : (t.money.allocations.map Allocation.key).Nodup)
    (hm : (x.debit plan.admission).batch plan.selection.picks plan.instant c.toCircumstance
      t.money = some m) : (x.row plan.instant plan.expiresAt).Booked m := by
  obtain ⟨_, entries, rfl, hrows, -, hsum, hentries⟩ := Wallet.DebitCall.batch_books hn hm
  refine ⟨?_, hsum, ?_⟩
  · have hentry : entries = [(x.debit plan.admission).entry] := by
      rcases hentries with ⟨-, hsome⟩ | ⟨heq, -⟩
      · -- the reference had no entry of a hold
        obtain ⟨e, he⟩ := Option.isSome_iff_exists.mp hsome
        obtain ⟨hmem, hkey⟩ := Wallet.Tables.entry_some he
        rw [Wallet.Entry.key_eq] at hkey
        have hin : e ∈ t.money.ledgerOf x.org (holdRef x.reference) :=
          List.mem_filter.mpr ⟨hmem, decide_eq_true ⟨hkey.1, hkey.2.2, fun hf => by
            rw [hkey.2.1] at hf
            cases hf⟩⟩
        rw [hb.ledger] at hin
        cases hin
      · exact heq
    show Wallet.Tables.heldOf _ x.org (holdRef x.reference) = _
    rw [Wallet.Tables.heldOf_append, hb.held, hentry]
    simp [Wallet.DebitCall.entry, HoldInput.debit, Hold.outstanding, HoldInput.row]
  · show Wallet.Tables.allocatedBy _ x.org .capture (holdRef x.reference) = 0
    have hzero := hb.allocatedBy .capture
    unfold Wallet.Tables.allocatedBy Wallet.Tables.allocatedWhere at hzero ⊢
    rw [Table.sumIf_append, hzero, zero_add]
    refine Table.sumIf_eq_zero fun a ha hp => ?_
    simp only [Bool.and_eq_true, decide_eq_true_eq] at hp
    have htype := (hrows a ha).2.1
    rw [hp.1] at htype
    cases htype

theorem sound_row {x : HoldInput} (hx : x.check = none) (instant expiresAt : Instant) :
    (x.row instant expiresAt).Sound := by
  have hcheck : validReference x.reference = true ∧ spendableMicros x.amountMicros = true ∧
      validFingerprint x.measurementFingerprint = true := by
    unfold HoldInput.check at hx
    split at hx
    · cases hx
    · split at hx
      · cases hx
      · split at hx
        · cases hx
        · simp_all
  refine ⟨fun _ => rfl, fun hne => absurd rfl hne, by simp [HoldInput.row], ?_, ?_, ?_, ?_, ?_, ?_⟩
  · rintro (hs | hs) <;> cases hs
  · intro hs
    cases hs
  · intro hne
    exact absurd rfl hne
  · intro hnone
    cases hnone
  · rintro f hf
    cases Option.mem_some_iff.mp hf
    exact ⟨rfl, rfl, hcheck⟩
  · intro f hf
    cases hf

/-- `admitHold`'s batch. -/
theorem hold (hk : HoldsKept t) {x : HoldInput} (hx : x.check = none)
    {plan : HoldPlan x.amountMicros} (h : x.batch plan c t = some t') :
    HoldsKept t' ∧ t.HoldsEvolve t' := by
  obtain ⟨hfree, -, -, -, m, rfl, hzero, hpos⟩ := HoldInput.batch_cases h
  have hblank : Blank t.money x.org (holdRef x.reference) := hk.blank hfree
  by_cases hamount : x.amountMicros = 0
  · obtain rfl := hzero hamount
    refine hk.insert hfree hk.allocation_keys (sound_row hx _ _) ?_ fun _ _ _ => .refl _ _ _
    refine ⟨?_, ?_, hblank.allocatedBy .capture⟩
    · show t.money.heldOf x.org (holdRef x.reference) = _
      rw [hblank.held]
      simp [Hold.outstanding, HoldInput.row, hamount]
    · show t.money.allocatedBy x.org .hold (holdRef x.reference) = _
      rw [hblank.allocatedBy .hold]
      simp [Hold.outstanding, HoldInput.row, hamount]
  · have hm := hpos hamount
    obtain ⟨-, -, -, -, hkeys, -⟩ := Wallet.DebitCall.batch_books hk.allocation_keys hm
    refine hk.insert hfree hkeys (sound_row hx _ _)
      (booked_of_debit hblank hk.allocation_keys hm) fun org ref hne => ?_
    exact Wallet.DebitCall.batch_sameBooks hk.allocation_keys hm hne

/-- `release`'s row under an unknown reference. -/
theorem release (hk : HoldsKept t) {now : Instant}
    (h : t.insertHold (tombstone org ref now) = some t') : HoldsKept t' ∧ t.HoldsEvolve t' := by
  obtain ⟨hfree, rfl⟩ := Tables.insertHold_some h
  have hblank : Blank t.money org (holdRef ref) := hk.blank hfree
  refine hk.insert hfree hk.allocation_keys ?_
    ⟨hblank.held, hblank.allocatedBy .hold, hblank.allocatedBy .capture⟩ fun _ _ _ => .refl _ _ _
  refine ⟨?_, fun _ => rfl, by simp [tombstone], ?_, ?_, ?_, fun _ => ⟨now, rfl⟩, ?_, ?_⟩
  · intro hs
    cases hs
  · intro _ _ e he
    cases he
  · intro hs
    cases hs
  · intro hne
    exact absurd rfl hne
  · intro f hf
    cases hf
  · intro f hf
    cases hf

end HoldsKept

/-! ### Closing a hold -/

/-- The arguments of `close` are those of a capture, a release or an expiry. -/
structure Closing.Valid (x : Closing) : Prop where
  closes : x.state ≠ .live
  le : x.captured ≤ x.row.amountMicros
  captured : x.state = .captured ↔ 0 < x.captured
  signature : ∀ f ∈ x.captureFingerprint, f.Valid ∧ f.amountMicros = x.captured ∧
    (x.state = .captured ∨ x.state = .released)

namespace Closing

variable {x : Closing} {instant : Instant} {r : Hold}

theorem closesTo_closed (hv : x.Valid) (hlive : r.state = .live) :
    r.ClosesTo (x.closed instant r) :=
  ⟨hlive, hv.closes, rfl⟩

/-- The row as a close leaves it. -/
theorem sound_closed (hv : x.Valid) (hr : r.Sound) (hlive : r.state = .live)
    (hamount : x.row.amountMicros = r.amountMicros) (htime : x.inTime instant r = true) :
    (x.closed instant r).Sound := by
  have hopening := hr.live hlive
  have hreason : r.closureReason = none := by rw [hopening]; rfl
  have hle := hv.le
  refine ⟨fun hl => absurd hl hv.closes, fun _ => ?_, hv.captured, ?_, ?_, ?_, ?_, hr.admitted,
    hv.signature⟩
  · show x.captured + (x.row.amountMicros - x.captured) = r.amountMicros
    omega
  · intro hs _ e he
    have hne : x.state ≠ .expired := by
      rintro heq
      rcases hs with hs | hs <;> rw [show x.state = _ from hs] at heq <;> cases heq
    have he' : r.expiresAt = some e := he
    simp only [inTime, he', if_neg hne, decide_eq_true_eq] at htime
    exact ⟨instant, rfl, htime⟩
  · intro hs
    have hs' : x.state = .expired := hs
    unfold inTime at htime
    cases he : r.expiresAt with
    | none => simp [he] at htime
    | some e =>
      simp only [he, if_pos hs', decide_eq_true_eq] at htime
      exact ⟨e, he, instant, rfl, htime⟩
  · intro hne
    exact absurd hreason hne
  · intro hnone
    obtain ⟨_, heq⟩ := hr.tombstone hnone
    rw [heq] at hlive
    cases hlive

theorem sum_entries (hle : x.captured ≤ x.row.amountMicros) :
    Table.sumIf (fun e => decide (e.org = x.row.org ∧ e.ref = x.row.ledgerRef))
      Wallet.Entry.heldDeltaMicros x.entries = -x.row.amountMicros := by
  unfold entries
  by_cases hpos : 0 < x.captured
  · by_cases hlt : x.captured < x.row.amountMicros
    · simp only [if_pos hpos, if_pos hlt, List.cons_append, List.nil_append, Table.sumIf_cons,
        Table.sumIf_nil]
      simp
      omega
    · simp only [if_pos hpos, if_neg hlt, List.append_nil, Table.sumIf_cons, Table.sumIf_nil]
      simp
      omega
  · by_cases hlt : x.captured < x.row.amountMicros
    · simp only [if_neg hpos, if_pos hlt, List.nil_append, Table.sumIf_cons, Table.sumIf_nil]
      simp
      omega
    · simp only [if_neg hpos, if_neg hlt, List.append_nil, Table.sumIf_nil]
      omega

theorem entries_ref {e : Wallet.Entry} (he : e ∈ x.entries) :
    e.org = x.row.org ∧ e.ref = x.row.ledgerRef := by
  rcases List.mem_append.mp he with he | he
  · split at he
    · rw [List.mem_singleton.mp he]
      exact ⟨rfl, rfl⟩
    · cases he
  · split at he
    · rw [List.mem_singleton.mp he]
      exact ⟨rfl, rfl⟩
    · cases he

theorem sum_taken (picks : List Pick) :
    Table.sumIf (fun a : Allocation => decide (a.debitType = .capture) &&
        decide (a.org = x.row.org ∧ a.debitRef = x.row.ledgerRef)) Allocation.amountMicros
      (picks.map x.taken) = (picks.map Pick.amount).sum := by
  induction picks with
  | nil => rfl
  | cons _ _ ih =>
    rw [List.map_cons, Table.sumIf_cons, ih, List.map_cons, List.sum_cons]
    simp [taken]

/-- The wallet as a close of the row leaves it. -/
def settled (x : Closing) (picks : List Pick) (m : Wallet.Tables) : Wallet.Tables :=
  Wallet.Tables.deleteHolds { m with
    ledger := m.ledger ++ x.entries
    allocations := m.allocations ++ picks.map x.taken } x.row.org x.row.ledgerRef

/-- A close leaves the books of other references. -/
theorem settled_sameBooks {picks : List Pick} (hne : ¬(x.row.org = org ∧ x.row.ledgerRef = ref)) :
    SameBooks m (x.settled picks m) org ref := by
  have hbooks : SameBooks m { m with
      ledger := m.ledger ++ x.entries
      allocations := m.allocations ++ picks.map x.taken } org ref := by
    refine SameBooks.of_append rfl rfl (fun e he => Or.inl ?_) fun a ha => ?_
    · rw [(entries_ref he).1, (entries_ref he).2]
      exact hne
    · obtain ⟨p, -, rfl⟩ := List.mem_map.mp ha
      exact hne
  refine hbooks.trans (SameBooks.of_delete
    (p := fun a => decide (a.org = x.row.org ∧ a.debitType = .hold ∧ a.debitRef = x.row.ledgerRef))
    rfl rfl fun a _ hp => ?_)
  · rw [decide_eq_true_eq] at hp
    rw [hp.1, hp.2.2]
    exact hne

theorem booked_closed {picks : List Pick} (hv : x.Valid)
    (hpicks : (picks.map Pick.amount).sum = x.captured) (hkey : r.key = x.row.key) (hr : r.Sound)
    (hlive : r.state = .live) (hb : r.Booked m)
    (hheld : m.heldOf x.row.org x.row.ledgerRef = x.row.amountMicros) :
    (x.closed instant r).Booked (x.settled picks m) := by
  obtain ⟨ho, hre⟩ := Hold.key_eq.mp hkey
  have hl : r.ledgerRef = x.row.ledgerRef := by rw [Hold.ledgerRef, hre]; rfl
  have hzero : m.allocatedBy x.row.org .capture x.row.ledgerRef = 0 := by
    have := hb.captures
    rw [hr.live hlive] at this
    rwa [← ho, ← hl]
  have hclosed : (x.closed instant r).outstanding = 0 := if_neg hv.closes
  refine ⟨?_, ?_, ?_⟩
  · show (x.settled picks m).heldOf r.org r.ledgerRef = _
    rw [hclosed, ho, hl]
    show Wallet.Tables.heldOf { m with ledger := m.ledger ++ x.entries, allocations := _ } _ _ = _
    rw [Wallet.Tables.heldOf_append, hheld, sum_entries hv.le]
    simp
  · show (x.settled picks m).allocatedBy r.org .hold r.ledgerRef = _
    rw [hclosed, ho, hl]
    exact Wallet.Tables.allocatedBy_deleteHolds _ _
  · show (x.settled picks m).allocatedBy r.org .capture r.ledgerRef = x.captured
    rw [ho, hl, settled, Wallet.Tables.allocatedBy_deleteHolds_of_ne (by decide)]
    unfold Wallet.Tables.allocatedBy Wallet.Tables.allocatedWhere at hzero ⊢
    rw [Table.sumIf_append, hzero, zero_add, sum_taken, hpicks]

end Closing

/-- `close`'s batch. -/
theorem HoldsKept.close (hk : HoldsKept t) {x : Closing} (hv : x.Valid) {instant : Instant}
    {selection : Wallet.Selection x.captured} (h : x.batch instant selection.picks c t = some t') :
    HoldsKept t' ∧ t.HoldsEvolve t' := by
  obtain ⟨⟨r, hr, hkey, hlive, htime⟩, -, hheld, -, rfl, hkeys⟩ :=
    Closing.batch_cases h hk.allocation_keys
  have hsound := hk.sound hr
  have hbooked := hk.booked hr
  obtain ⟨ho, hre⟩ := Hold.key_eq.mp hkey
  have hl : r.ledgerRef = x.row.ledgerRef := by rw [Hold.ledgerRef, hre]; rfl
  -- the wallet holds the amount of the row, which the batch compares with the snapshot's
  have hamount : x.row.amountMicros = r.amountMicros := by
    have := hbooked.held
    rw [ho, hl, hheld, Hold.outstanding, if_pos hlive] at this
    exact_mod_cast this
  refine hk.update (m := x.settled selection.picks t.money) hr (by simp [hkey, hlive, htime])
    (fun s _ hs => ?_) (Closing.closesTo_closed hv hlive) hkeys
    (Closing.sound_closed hv hsound hlive hamount htime)
    (Closing.booked_closed hv selection.total hkey hsound hlive hbooked hheld) fun org ref hne => ?_
  · simp only [Bool.and_eq_true, decide_eq_true_eq] at hs
    exact hs.1.1.trans hkey.symm
  · refine Closing.settled_sameBooks ?_
    rw [← ho, ← hl]
    exact hne

/-! ### Refunds -/

/-- A hold among those a refund closes has its row closed too, and no usage record is. -/
def Closure.Fits (x : Closure) : Prop :=
  (∀ ref, x.ref = holdRef ref → x.hasRow = true) ∧ ∀ ref, x.ref ≠ usageRef ref

/-- A row that a refund releases. -/
theorem RefundInput.sound_released {h : Hold} (hs : h.Sound) (hlive : h.state = .live)
    (now : Instant) : (RefundInput.released now h).Sound := by
  have hopening := hs.live hlive
  have hzero : h.capturedMicros = 0 := by rw [hopening]; rfl
  have hnone : h.captureFingerprint = none := by rw [hopening]; rfl
  refine ⟨?_, fun _ => ?_, ?_, ?_, ?_, fun _ => ⟨rfl, rfl, hzero⟩, ?_, hs.admitted, ?_⟩
  · intro hl
    cases hl
  · show h.capturedMicros + h.amountMicros = h.amountMicros
    omega
  · show HoldState.released = .captured ↔ 0 < h.capturedMicros
    simp [hzero]
  · intro _ hreason
    cases hreason
  · intro he
    cases he
  · intro hf
    obtain ⟨_, heq⟩ := hs.tombstone hf
    rw [heq] at hlive
    cases hlive
  · intro f hf
    have hf' : f ∈ h.captureFingerprint := hf
    rw [hnone] at hf'
    cases hf'

theorem HoldsKept.closeHold (hk : HoldsKept t) {r : RefundInput} {now : Instant} {x : Closure}
    (hx : x.Fits) (h : r.closeHold now x t = some t') : HoldsKept t' ∧ t.HoldsEvolve t' := by
  obtain ⟨hrow, m, hm, rfl⟩ := RefundInput.closeHold_cases h
  have hsame : ∀ org ref, ¬(r.call.org = org ∧ x.ref = ref) → SameBooks t.money m org ref :=
    fun org ref hne => Wallet.RefundCall.closeHold_sameBooks hm hne
  obtain ⟨halloc, -, hm'⟩ := Wallet.RefundCall.closeHold_cases hm
  have hkeys : (m.allocations.map Allocation.key).Nodup := by
    rw [hm']
    exact hk.allocation_keys.sublist (List.filter_sublist.map _)
  cases hhas : x.hasRow with
  | false =>
    -- the hold of another user of the wallet
    refine ⟨hk.frame rfl hkeys fun org ref => hsame _ _ ?_, Tables.HoldsEvolve.of_eq rfl⟩
    rintro ⟨-, heq⟩
    rw [hx.1 ref heq] at hhas
    cases hhas
  | true =>
    obtain ⟨row, hmem, hcloses⟩ := hrow hhas
    simp only [RefundInput.closes, decide_eq_true_eq] at hcloses
    obtain ⟨ho, hl, hlive⟩ := hcloses
    have hb := hk.booked hmem
    have hs := hk.sound hmem
    have houtstanding : row.outstanding = row.amountMicros := if_pos hlive
    have hheld : x.held = row.amountMicros := by
      have := hb.holds
      rw [ho, hl, houtstanding] at this
      exact (halloc.symm.trans this)
    refine hk.update hmem (by simp [RefundInput.closes, ho, hl, hlive]) (fun s _ hp => ?_)
      ⟨hlive, by simp [RefundInput.released], rfl⟩ hkeys (RefundInput.sound_released hs hlive now) ?_
      fun org ref hne => hsame _ _ ?_
    · simp only [RefundInput.closes, decide_eq_true_eq] at hp
      refine Hold.key_eq.mpr ⟨hp.1.trans ho.symm, holdRef_inj.mp ?_⟩
      exact hp.2.1.trans hl.symm
    · -- the release takes back all that was held
      refine ⟨?_, ?_, ?_⟩
      · show m.heldOf row.org row.ledgerRef = 0
        have := hb.held
        rw [ho, hl] at this ⊢
        rw [hm', Wallet.Tables.heldOf_append, this, houtstanding]
        simp [RefundInput.call, hheld]
      · show m.allocatedBy row.org .hold row.ledgerRef = 0
        rw [ho, hl, hm']
        exact Wallet.Tables.allocatedBy_deleteHolds (m := t.money) r.grant.org x.ref
      · show m.allocatedBy row.org .capture row.ledgerRef = row.capturedMicros
        rw [hm', ← hb.captures]
        exact Wallet.Tables.allocatedBy_deleteHolds_of_ne (m := t.money) (by decide) _ _
    · rintro ⟨horg, href⟩
      exact hne ⟨ho.trans horg, hl.trans href⟩

/-- `refund`'s batch. -/
theorem HoldsKept.refund (hk : HoldsKept t) {r : RefundInput} {plan : RefundPlan}
    (hx : ∀ x ∈ plan.closures, x.Fits) (h : r.batch plan c t = some t') :
    HoldsKept t' ∧ t.HoldsEvolve t' := by
  obtain ⟨-, t₁, h₁, -, -, -, -, _, rfl⟩ := RefundInput.batch_cases h
  have key : HoldsKept t₁ ∧ t.HoldsEvolve t₁ := by
    refine RefundInput.closeHolds_induction (P := fun u => HoldsKept u ∧ t.HoldsEvolve u)
      (fun x hmem u u' hu hc => ?_) h₁ ⟨hk, .refl t⟩
    obtain ⟨hk', he⟩ := hu.1.closeHold (hx x hmem) hc
    exact ⟨hk', hu.2.trans he⟩
  exact ⟨key.1.frame rfl key.1.allocation_keys fun _ _ => SameBooks.of_eq rfl rfl, key.2⟩

end Takoserver.Org
