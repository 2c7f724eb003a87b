import Takoserver.Wallet.Spending

/-!
# What is available can be spent

The wallet's `availableMicros` is one aggregate over every lot, hold and fence
of an organization; a hold walks the eligible lots one by one.  Where the tables
are backed and no frozen lot is blocked free credit, the aggregate is the sum of
what the eligible lots have left, lot by lot.  Calls that are made one after the
other keep the tables so, and a hold made alone succeeds exactly when the amount
is available.
-/

namespace Takoserver.Wallet

variable {t t' : Tables}

/-! ### Drawing on rows -/

theorem draw_remaining (remaining : ℕ) (rows : List (String × ℕ)) :
    (draw remaining rows).2 = remaining - (rows.map Prod.snd).sum := by
  induction rows generalizing remaining with
  | nil => simp [draw]
  | cons row rows ih =>
    obtain ⟨_, _⟩ := row
    simp only [draw, List.map_cons, List.sum_cons]
    split
    · omega
    · rw [ih]
      omega

theorem select_isSome {amount : ℕ} {rows : List (String × ℕ)} :
    (select amount rows).isSome ↔ amount ≤ (rows.map Prod.snd).sum := by
  have hremaining := draw_remaining amount rows
  unfold select
  split
  · simp only [Option.isSome_some, true_iff]
    omega
  · simp only [Option.isSome_none, Bool.false_eq_true, false_iff]
    omega

theorem eligibleLots_sum (hc : Covered t) (c : Circumstance) (admission : Option Admission)
    (org : String) :
    (((t.eligibleLots c admission org).map Prod.snd).sum : ℤ) =
      Table.sumIf (fun l => decide (l.org = org) && t.lotPredicate c admission l) t.remaining
        t.lots := by
  unfold Tables.eligibleLots
  rw [List.map_map, ((List.perm_insertionSort _ _).map _).sum_eq, ← Table.sumIf_eq_sum_filter,
    Table.sumIf_natCast]
  refine Table.sumIf_congr fun l hl => ?_
  have hcovered := hc.covered l hl
  by_cases hpos : 0 < t.remaining l
  · simp only [hpos, decide_true, Bool.and_true, Function.comp_apply]
    rw [Int.toNat_of_nonneg hcovered]
  · -- a lot with nothing left counts for nothing on either side
    have hzero : t.remaining l = 0 := by omega
    simp [hzero]

/-! ### The wallet's figure -/

variable {c : Circumstance} {org ref : String} {d : DebitCall} {client : Client}
  {selection : Selection d.amountMicros}

/-! ### Inserting what was drawn -/

theorem takes_of_covers (hn : (t.lots.map Lot.key).Nodup) {admits : Lot → Bool} {a : Allocation}
    (hfree : ∀ x ∈ t.allocations, x.key ≠ a.key) {l : Lot} (hl : l ∈ t.lots)
    (hk : l.key = (a.org, a.lotRef)) (hadmits : admits l = true)
    (hamount : (a.amountMicros : ℤ) ≤ t.remaining l) : t.takes admits a = true := by
  have hlot : t.lot a.org a.lotRef = some l := (Table.find_eq_some_iff hn).mpr ⟨hl, hk⟩
  unfold Tables.takes
  rw [Table.find_none.mpr hfree, hlot]
  simp [hadmits, hamount]

theorem remaining_append (t : Tables) (rows : List Allocation) (l : Lot) :
    Tables.remaining { t with allocations := t.allocations ++ rows } l =
      t.remaining l - Table.sumIf (fun a => decide (a.org = l.org ∧ a.lotRef = l.ref))
        Allocation.amountMicros rows := by
  have hrefunds : Tables.refundSum { t with allocations := t.allocations ++ rows }
      Refund.debitMicros l.org l.ref = t.refundSum Refund.debitMicros l.org l.ref := rfl
  unfold Tables.remaining
  rw [hrefunds]
  unfold Tables.allocatedTo
  rw [Table.sumIf_append]
  push_cast
  omega

/-- Picks of different lots that have them are all inserted, under a reference that has no
rows yet. -/
theorem allocate_eq (hn : (t.lots.map Lot.key).Nodup) {picks : List Pick}
    (hpicks : (picks.map Pick.lotRef).Nodup)
    (hfree : ∀ p ∈ picks, ∀ x ∈ t.allocations, x.key ≠ (d.allocation p).key)
    (hlots : ∀ p ∈ picks, ∃ l ∈ t.lots, l.key = (d.org, p.lotRef) ∧
      t.lotPredicate c d.admission l = true ∧ (p.amount : ℤ) ≤ t.remaining l) :
    d.allocate c picks t =
      { t with allocations := t.allocations ++ picks.map d.allocation } := by
  induction picks generalizing t with
  | nil => simp [DebitCall.allocate]
  | cons p picks ih =>
    obtain ⟨l, hl, hk, hadmits, hamount⟩ := hlots p List.mem_cons_self
    have htakes : t.takes (t.lotPredicate c d.admission) (d.allocation p) = true :=
      takes_of_covers hn (hfree p List.mem_cons_self) hl hk hadmits hamount
    rw [List.map_cons, List.nodup_cons] at hpicks
    have hne : ∀ p' ∈ picks, p'.lotRef ≠ p.lotRef := by
      intro p' hp' heq
      exact hpicks.1 (heq ▸ List.mem_map_of_mem hp')
    rw [DebitCall.allocate_cons, Tables.insertAllocationIfCovered, if_pos htakes,
      ih (t := { t with allocations := t.allocations ++ [d.allocation p] }) hn hpicks.2 ?_ ?_]
    · simp
    · intro p' hp' x hx
      rcases Table.mem_insert.mp hx with hx | rfl
      · exact hfree p' (List.mem_cons_of_mem _ hp') x hx
      · intro heq
        exact hne p' hp' (Allocation.key_eq.mp heq).2.2.2.symm
    · intro p' hp'
      obtain ⟨l', hl', hk', hadmits', hamount'⟩ := hlots p' (List.mem_cons_of_mem _ hp')
      refine ⟨l', hl', hk', hadmits', ?_⟩
      -- the first pick is of another lot
      have hother : Table.sumIf (fun a => decide (a.org = l'.org ∧ a.lotRef = l'.ref))
          Allocation.amountMicros [d.allocation p] = 0 := by
        refine Table.sumIf_eq_zero fun a ha hof => ?_
        rw [List.mem_singleton.mp ha, decide_eq_true_eq] at hof
        refine absurd ?_ (hne p' hp')
        rw [← (Lot.key_eq.mp hk').2, ← hof.2]
        rfl
      rw [remaining_append, hother]
      simpa using hamount'

theorem sumIf_remaining_append (hn : (t.lots.map Lot.key).Nodup) {rows : List Allocation}
    {q : Lot → Bool} (hrows : ∀ a ∈ rows, ∃ l ∈ t.lots, q l = true ∧ l.key = (a.org, a.lotRef)) :
    Table.sumIf q (Tables.remaining { t with allocations := t.allocations ++ rows }) t.lots =
      Table.sumIf q t.remaining t.lots - (rows.map Allocation.amountMicros).sum := by
  let drawn : Lot → ℕ := fun l =>
    Table.sumIf (fun a => decide (a.org = l.org ∧ a.lotRef = l.ref)) Allocation.amountMicros rows
  have hfiber : Table.sumIf q (fun l => Table.sumIf (fun a => true &&
      decide ((a.org, a.lotRef) = l.key)) Allocation.amountMicros rows) t.lots =
        Table.sumIf (fun _ => true) Allocation.amountMicros rows :=
    Table.sumIf_fiber hn rows fun a ha _ => hrows a ha
  have hdrawn : Table.sumIf q drawn t.lots = (rows.map Allocation.amountMicros).sum := by
    rw [Table.sumIf_const (b := true) (fun _ _ => rfl), if_pos rfl] at hfiber
    rw [← hfiber]
    refine Table.sumIf_congr fun l _ => ?_
    simp [drawn, Lot.key]
  have hsplit : Table.sumIf q t.remaining t.lots =
      Table.sumIf q (fun l => Tables.remaining { t with allocations := t.allocations ++ rows } l +
        (drawn l : ℤ)) t.lots := by
    refine Table.sumIf_congr fun l _ => ?_
    rw [remaining_append]
    simp [drawn]
  rw [Table.sumIf_add, ← Table.sumIf_natCast, hdrawn] at hsplit
  omega

/-! ### Calls one after the other -/

def Client.atRest : Client → Bool
  | .idle | .finished _ _ => true
  | _ => false

/-- What Stripe freezes is the lot of a grant it paid for, which is not free credit. -/
def Fence.sparesFree (f : Fence) (t : Tables) : Bool :=
  !f.active || !t.lots.any fun l => l.key = f.key ∧ l.consumptionClass = .free

/-- The call does not fund free credit under a frozen reference. -/
def Call.sparesFree (t : Tables) : Call → Bool
  | .fund f => !(decide (f.consumptionClass = .free) && t.fenced f.org f.fundingRef)
  | _ => true

/-- One client alone makes the calls, each after the one before has ended, and fences move
between them. -/
def sequential (s : System) : WalletAction → Bool
  | .call i call => decide (i = 0) && (s.client 0).atRest && call.sparesFree s.db
  | .step i _ => decide (i = 0)
  | .crash i => decide (i = 0)
  | .fence f => (s.client 0).atRest && f.sparesFree s.db

/-- What the tables hold between the statements of sequential calls. -/
structure Orderly (t : Tables) : Prop extends Backed t where
  entered : ∀ a ∈ t.allocations, a.debitType = .hold →
    ∃ e ∈ t.ledger, e.key = (a.org, .hold, a.debitRef)
  unfrozen : ∀ l ∈ t.lots, l.consumptionClass = .free → t.fenced l.org l.ref = false

/-- A refund leaves the fences as they are, or clears one generation. -/
theorem RefundCall.batch_fences {r : RefundCall} {plan : RefundPlan}
    (h : r.batch plan c t = some t') :
    ∃ t₁, r.closeHolds plan.closures t = some t₁ ∧ (t'.fences = t₁.fences ∨
      ∃ generation, t'.fences = (t₁.clearFence r.org r.fundingRef generation).fences) := by
  unfold RefundCall.batch at h
  simp only [Option.bind_eq_bind, Option.bind_eq_some_iff, Option.pure_def, Option.some.injEq] at h
  obtain ⟨_, h₀, _, h₁, t₂, h₂, _, h₃, rfl⟩ := h
  obtain ⟨rfl, -⟩ := Table.guard_some h₀
  obtain ⟨rfl, -⟩ := Table.guard_some h₂
  obtain ⟨-, rfl⟩ := Tables.insertRefund_some h₃
  refine ⟨t₂, h₁, ?_⟩
  split
  · exact Or.inr ⟨r.fenceGeneration, rfl⟩
  · exact Or.inl rfl

/-- What a call that nothing comes between has read is still so. -/
def Client.Fresh (t : Tables) : Client → Prop
  | .funding f _ => f.consumptionClass = .free → t.fenced f.org f.fundingRef = false
  | .debiting d .receivable | .debiting d .lots | .debiting d (.committing _ _) =>
      d.kind ≠ .rollUp → d.recorded t = false
  | .settling s (.captured _ rows) | .settling s (.fence _ rows _) =>
      rows = t.heldRows s.org s.reference
  | .settling s (.committing plan) => s.current plan.selection.picks t = true
  | _ => True

theorem orderly_init : Orderly {} := ⟨backed_init, by simp, by simp⟩

/-- Where no frozen lot is free credit, none is left out of `settled` as blocked. -/
theorem frozenCounted_of_unfrozen
    (h : ∀ l ∈ t.lots, l.consumptionClass = .free → t.fenced l.org l.ref = false) (c : Circumstance)
    (org : String) : t.frozenCounted c org = true := by
  unfold Tables.frozenCounted
  rw [List.all_eq_true]
  intro l hl
  by_cases hfree : l.consumptionClass = .free
  · simp [h l hl hfree]
  · simp [Circumstance.excludes, hfree]

namespace Orderly

theorem free_of_entry_none (ho : Orderly t) (h : t.entry org .hold ref = none) :
    ∀ a ∈ t.allocations, a.org = org → a.debitType = .hold → a.debitRef ≠ ref := by
  intro a ha horg htype href
  obtain ⟨e, he, hk⟩ := ho.entered a ha htype
  refine Tables.entry_none (by rw [h]; rfl) e he ?_
  rw [hk, horg, href]

theorem fenced_step (hn : (t.allocations.map Allocation.key).Nodup) (c : Circumstance)
    (client : Client) (h : (client.step t c).2.fenced org ref = true) :
    t.fenced org ref = true := by
  have hsame : ∀ u : Tables, u.fences = t.fences → u.fenced org ref = true →
      t.fenced org ref = true := by
    intro u hu hfenced
    unfold Tables.fenced at hfenced ⊢
    rwa [← hu]
  rcases step_cases t c client with heq | ⟨f, -, hb⟩ | ⟨d, selection, now, -, hb⟩ |
    ⟨s, plan, -, hb⟩ | ⟨r, plan, -, hb⟩
  · rwa [heq] at h
  · obtain ⟨l, -, -, -, heq, -, -⟩ := FundCall.batch_cases hb
    refine hsame _ ?_ h
    rw [heq]
    exact (t.fundOrIgnore_same l _).2.1
  · obtain ⟨-, -, heq⟩ := DebitCall.batch_cases hb
    obtain ⟨rows, hrows, -, -⟩ := DebitCall.allocate_cases (d := d) { c with now := now }
      selection.picks t hn
    refine hsame _ ?_ h
    rw [heq, hrows, (Tables.insertEntryOrIgnore_same _ _).2.1]
  · obtain ⟨_, hmoves, -, -, heq⟩ := SettleCall.batch_cases hb
    refine hsame _ ?_ h
    rw [heq]
    exact (SettleCall.moves_same hmoves).2.2.2
  · obtain ⟨t₁, hclose, hfences⟩ := RefundCall.batch_fences hb
    refine hsame t₁ (RefundCall.closeHolds_same hclose).2.1 ?_
    unfold Tables.fenced at h ⊢
    rw [List.any_eq_true] at h ⊢
    obtain ⟨f, hf, hfenced⟩ := h
    rw [decide_eq_true_eq] at hfenced
    rcases hfences with heq | ⟨_, heq⟩
    · exact ⟨f, heq ▸ hf, decide_eq_true hfenced⟩
    · -- a fence that is still active is not the one that was cleared
      rw [heq] at hf
      obtain ⟨f₀, hf₀, rfl⟩ := List.mem_map.mp hf
      split at hfenced
      · exact absurd hfenced.2.2 (by simp)
      · exact ⟨f₀, hf₀, decide_eq_true hfenced⟩

theorem entered_step (ho : Orderly t) (c : Circumstance) (client : Client) :
    ∀ a ∈ (client.step t c).2.allocations, a.debitType = .hold →
      ∃ e ∈ (client.step t c).2.ledger, e.key = (a.org, .hold, a.debitRef) := by
  have hgrows := Grows.step ho.allocation_keys c client
  -- a row under the key of one that was there is entered like that one
  have hkept : ∀ a b : Allocation, b ∈ t.allocations → b.key = a.key → a.debitType = .hold →
      ∃ e ∈ (client.step t c).2.ledger, e.key = (a.org, .hold, a.debitRef) := by
    intro a b hb hk htype
    obtain ⟨horg, hty, href, -⟩ := Allocation.key_eq.mp hk
    obtain ⟨e, he, hek⟩ := ho.entered b hb (hty.trans htype)
    exact ⟨e, hgrows.ledger e he, by rw [hek, horg, href]⟩
  intro a ha htype
  rcases step_cases t c client with heq | ⟨f, -, hb⟩ | ⟨d, selection, now, -, hb⟩ |
    ⟨s, plan, -, hb⟩ | ⟨r, plan, -, hb⟩
  · rw [heq] at ha
    exact hkept a a ha rfl htype
  · obtain ⟨l, -, -, -, heq, -, -⟩ := FundCall.batch_cases hb
    refine hkept a a ?_ rfl htype
    rwa [heq, (t.fundOrIgnore_same l _).1] at ha
  · obtain ⟨-, -, heq⟩ := DebitCall.batch_cases hb
    obtain ⟨rows, hrows, hof, -⟩ := DebitCall.allocate_cases (d := d) { c with now := now }
      selection.picks t ho.allocation_keys
    rw [hrows] at heq
    rw [heq, (Tables.insertEntryOrIgnore_same _ _).2.2] at ha
    rcases List.mem_append.mp ha with hold | hnew
    · exact hkept a a hold rfl htype
    -- a row of the debit, whose entry the batch leaves in the ledger
    obtain ⟨horg, hty, href⟩ := hof a hnew
    have hkind : d.kind = .hold := by
      by_contra hne
      rw [htype] at hty
      simp [DebitCall.type, hne] at hty
    have hkey : d.entry.key = (a.org, .hold, a.debitRef) := by
      simp [DebitCall.entry, hkind, Entry.key, horg, href]
    obtain ⟨hko, hkt, hkr⟩ := Entry.key_eq.mp hkey
    rw [heq]
    rcases Tables.insertEntryOrIgnore_cases { t with allocations := t.allocations ++ rows }
      d.entry with ⟨hsome, he⟩ | ⟨-, he⟩ <;> rw [he]
    · obtain ⟨e, he⟩ := Option.isSome_iff_exists.mp hsome
      obtain ⟨hmem, hk⟩ := Tables.entry_some he
      exact ⟨e, hmem, by rw [hk, hko, hkt, hkr]⟩
    · exact ⟨d.entry, by simp, hkey⟩
  · obtain ⟨_, hmoves, -, -, heq⟩ := SettleCall.batch_cases hb
    rw [heq] at ha
    rcases moves_mem hmoves ha with ⟨b, hb, hk, -⟩ | ⟨hcapture, -⟩
    · exact hkept a b hb hk htype
    · cases htype.symm.trans hcapture
  · obtain ⟨-, t₁, _, hclose, -, -, -, -, -, -, -, hallocations, -⟩ := RefundCall.batch_cases hb
    rw [hallocations] at ha
    exact hkept a a ((RefundCall.closeHolds_same hclose).2.2 a ha) rfl htype

/-- A lot of the next tables was there, or the call that funds it found its reference not
frozen. -/
theorem unfrozen_step (ho : Orderly t) (hf : client.Fresh t) (hb' : Backed (client.step t c).2) :
    ∀ l ∈ (client.step t c).2.lots, l.consumptionClass = .free →
      (client.step t c).2.fenced l.org l.ref = false := by
  intro l hl hfree
  rw [Bool.eq_false_iff]
  intro hfenced
  have hbefore := fenced_step ho.allocation_keys c client hfenced
  suffices hmem : l ∈ t.lots by
    rw [ho.unfrozen l hmem hfree] at hbefore
    cases hbefore
  rcases step_cases t c client with heq | ⟨f, rfl, hb⟩ | ⟨d, selection, now, -, hb⟩ |
    ⟨s, plan, -, hb⟩ | ⟨r, plan, -, hb⟩
  · rwa [heq] at hl
  · obtain ⟨l₀, horg, href, -, heq, hlot, -⟩ := FundCall.batch_cases hb
    have hlots : l ∈ t.lots ∨ l = l₀ := (t.fundOrIgnore_same l₀ _).2.2 l (heq ▸ hl)
    rcases hlots with hold | rfl
    · exact hold
    · -- the lot the call funded is of the class it gave
      obtain ⟨l', hl', hmatches⟩ := (Option.any_eq_true _ _).mp hlot
      obtain ⟨hmem', ho', hr'⟩ := Tables.lot_some hl'
      obtain rfl : l = l' := Table.eq_of_key hb'.lot_keys hl hmem'
        (Lot.key_eq.mpr ⟨horg.trans ho'.symm, href.trans hr'.symm⟩)
      simp only [FundCall.lotMatches, decide_eq_true_eq] at hmatches
      rw [horg, href, hf (hmatches.2.1.symm.trans hfree)] at hbefore
      cases hbefore
  · obtain ⟨-, -, heq⟩ := DebitCall.batch_cases hb
    obtain ⟨rows, hrows, -, -⟩ := DebitCall.allocate_cases (d := d) { c with now := now }
      selection.picks t ho.allocation_keys
    rwa [heq, hrows, (Tables.insertEntryOrIgnore_same _ _).1] at hl
  · obtain ⟨_, hmoves, -, -, heq⟩ := SettleCall.batch_cases hb
    rw [heq] at hl
    exact (SettleCall.moves_same hmoves).1 ▸ hl
  · obtain ⟨-, t₁, _, hclose, -, -, -, -, -, hlots, -⟩ := RefundCall.batch_cases hb
    rwa [hlots, (RefundCall.closeHolds_same hclose).1] at hl

/-- **One statement of a call that nothing came between keeps the tables orderly.** -/
theorem step (ho : Orderly t) (hp : client.Planned) (hk : client.Knows t) (hf : client.Fresh t)
    (c : Circumstance) : Orderly (client.step t c).2 := by
  have hspends : client.spends t c = true := by
    cases client with
    | debiting d stage =>
      cases stage with
      | committing selection now =>
        unfold Client.spends
        cases hrec : d.recorded t with
        | false => simp [hrec]
        | true =>
          -- only a roll-up plans without looking, and its batch requires a new reference
          have hkind : d.kind = .rollUp := by
            by_contra hne
            rw [show d.recorded t = false from hf hne] at hrec
            cases hrec
          cases hb : d.batch selection.picks now c t with
          | none => simp [hb]
          | some t' =>
            have hunused := (DebitCall.batch_cases hb).1 hkind
            unfold DebitCall.unused at hunused
            unfold DebitCall.recorded at hrec
            simp [DebitCall.entryType, hkind] at hrec
            simp [Option.isNone_iff_eq_none] at hunused
            rw [hunused.1] at hrec
            cases hrec
      | _ => rfl
    | settling s stage =>
      cases stage with
      | committing plan =>
        have hcurrent : s.current plan.selection.picks t = true := hf
        simp [Client.spends, hcurrent]
      | _ => rfl
    | _ => rfl
  have hb := backed_step ho.toBacked hp hk hspends
  exact ⟨hb, ho.entered_step c client, ho.unfrozen_step hf hb⟩

end Orderly

theorem mem_heldRows {row : String × ℕ} (h : row ∈ t.heldRows org ref) :
    ∃ a ∈ t.allocations, a.key = (org, .hold, ref, row.1) ∧ a.amountMicros = row.2 := by
  obtain ⟨⟨l, _⟩, hmem, rfl⟩ := List.mem_map.mp h
  rw [List.mem_insertionSort, List.mem_filterMap] at hmem
  obtain ⟨a, ha, hrow⟩ := hmem
  split at hrow
  · next hof =>
    obtain ⟨_, hl', heq⟩ := Option.map_eq_some_iff.mp hrow
    cases heq
    exact ⟨a, ha, Allocation.key_eq.mpr ⟨hof.1, hof.2.1, hof.2.2, (Tables.lot_some hl').2.2.symm⟩,
      rfl⟩
  · cases hrow

theorem fresh_commits {s : SettleCall} {remainingHold : ℤ} {capturedBefore : ℕ} :
    (s.commits (s.plan remainingHold (t.heldRows s.org s.reference) capturedBefore)).Fresh t := by
  cases hplan : s.plan remainingHold (t.heldRows s.org s.reference) capturedBefore with
  | none => exact trivial
  | some plan =>
    unfold SettleCall.plan at hplan
    split at hplan
    · cases hplan
    rw [Option.map_eq_some_iff] at hplan
    obtain ⟨selection, hselect, rfl⟩ := hplan
    show s.current selection.picks t = true
    unfold SettleCall.current
    rw [List.all_eq_true]
    intro p hp
    rw [select_some hselect] at hp
    obtain ⟨a, ha, hk, hamount⟩ := mem_heldRows (draw_mem hp).1
    unfold SettleCall.finds
    rw [List.any_eq_true]
    exact ⟨a, ha, decide_eq_true ⟨hk, hamount⟩⟩

theorem FundCall.step_client (f : FundCall) (t : Tables) (c : Circumstance) (stage : FundStage) :
    (∃ stage', (f.step t c stage).1 = .funding f stage') ∨
      ∃ reply, (f.step t c stage).1 = .finished (.fund f) reply := by
  cases stage <;> simp only [FundCall.step]
  all_goals repeat' split
  all_goals first | exact Or.inl ⟨_, rfl⟩ | exact Or.inr ⟨_, rfl⟩

theorem fresh_start {call : Call} (h : call.sparesFree t = true) : call.start.Fresh t := by
  cases call with
  | fund f =>
    simp only [Call.start]
    split
    · intro hfree
      simpa [Call.sparesFree, hfree] using h
    · exact trivial
  | debit d =>
    simp only [Call.start]
    split
    · split
      · next hkind => exact fun hne => absurd hkind hne
      · exact trivial
    · exact trivial
  | settle s =>
    simp only [Call.start]
    split <;> exact trivial
  | refund r =>
    simp only [Call.start]
    split <;> exact trivial

theorem Orderly.fresh_step (ho : Orderly t) (hf : client.Fresh t) (c : Circumstance) :
    (client.step t c).1.Fresh (client.step t c).2 := by
  cases client with
  | idle => exact trivial
  | finished => exact trivial
  | refunding r stage =>
    show (r.step t c stage).1.Fresh (r.step t c stage).2
    cases stage with
    | totals _ _ refs =>
      cases refs <;> simp only [RefundCall.step] <;> split <;> exact trivial
    | _ =>
      simp only [RefundCall.step]
      repeat' split
      all_goals exact trivial
  | funding f stage =>
    -- the reference stays unfrozen, and a funding leads to a funding or to its end
    have hnext : f.consumptionClass = .free →
        (FundCall.step f t c stage).2.fenced f.org f.fundingRef = false := by
      intro hfree
      rw [Bool.eq_false_iff]
      intro hfenced
      have hbefore := fenced_step ho.allocation_keys c (.funding f stage) hfenced
      rw [hf hfree] at hbefore
      cases hbefore
    show (f.step t c stage).1.Fresh (f.step t c stage).2
    rcases f.step_client t c stage with ⟨_, hstage⟩ | ⟨_, hreply⟩
    · rw [hstage]
      exact hnext
    · rw [hreply]
      exact trivial
  | debiting d stage =>
    show (d.step t c stage).1.Fresh (d.step t c stage).2
    unfold DebitCall.step DebitCall.insufficient
    cases stage with
    | existing =>
      dsimp only
      split
      · split <;> exact trivial
      · next hnone =>
        split
        · exact trivial
        · intro _
          unfold DebitCall.recorded
          rw [hnone]
          rfl
    | receivable =>
      dsimp only
      split
      · exact hf
      · exact trivial
    | lots =>
      dsimp only
      split
      · exact hf
      · exact trivial
    | _ =>
      dsimp only
      repeat' split
      all_goals exact trivial
  | settling s stage =>
    show (s.step t c stage).1.Fresh (s.step t c stage).2
    cases stage with
    | rows => exact rfl
    | captured _ rows =>
      obtain rfl : rows = t.heldRows s.org s.reference := hf
      simp only [SettleCall.step]
      split
      · exact trivial
      · split
        · exact rfl
        · exact fresh_commits
    | fence _ rows =>
      obtain rfl : rows = t.heldRows s.org s.reference := hf
      simp only [SettleCall.step]
      split
      · exact trivial
      · exact fresh_commits
    | _ =>
      simp only [SettleCall.step]
      repeat' split
      all_goals exact trivial

/-! ### Sequential runs -/

/-- What holds between the statements of sequential runs. -/
structure Sequenced (s : System) : Prop where
  orderly : Orderly s.db
  planned : (s.client 0).Planned
  knows : (s.client 0).Knows s.db
  fresh : (s.client 0).Fresh s.db

theorem Sequenced.next {s s' : System} {a : WalletAction} (h : Sequenced s)
    (hok : sequential s a = true) (hn : wallets.next s a = some s') : Sequenced s' := by
  obtain ⟨ho, hp, hk, hf⟩ := h
  -- only client 0 acts, and a fence spares what it has read
  cases a with
  | call i call =>
    cases hn
    simp only [sequential, Bool.and_eq_true, decide_eq_true_eq] at hok
    obtain ⟨⟨rfl, -⟩, hspares⟩ := hok
    refine ⟨ho, ?_, ?_, ?_⟩ <;> simp only [Function.update_self]
    · exact planned_start call
    · exact knows_start call _
    · exact fresh_start hspares
  | step i c =>
    cases hn
    obtain rfl : i = 0 := of_decide_eq_true hok
    refine ⟨ho.step hp hk hf c, ?_, ?_, ?_⟩ <;> simp only [Function.update_self]
    · exact planned_step ho.allocation_keys c hp
    · exact hk.step c
    · exact ho.fresh_step hf c
  | crash i =>
    cases hn
    obtain rfl : i = 0 := of_decide_eq_true hok
    refine ⟨ho, ?_, ?_, ?_⟩ <;> simp only [Function.update_self] <;> exact trivial
  | fence f =>
    cases hn
    simp only [sequential, Bool.and_eq_true] at hok
    obtain ⟨hrest, hspares⟩ := hok
    have hb := ho.toBacked
    have hbacked : Backed (s.db.setFence f) :=
      ⟨hb.toSettled.of_frame rfl rfl, ⟨hb.lot_keys, hb.lot_of_allocation, hb.covered⟩,
        hb.lot_of_refund, hb.usage, hb.funded, hb.credited⟩
    refine ⟨⟨hbacked, ho.entered, ?_⟩, hp, hk.mono (.of_eq rfl rfl rfl), ?_⟩
    · intro l hl hfree
      rw [Bool.eq_false_iff]
      intro hfenced
      unfold Tables.fenced Tables.setFence at hfenced
      simp only [List.any_append, List.any_cons, List.any_nil, Bool.or_false, Bool.or_eq_true,
        List.any_eq_true, decide_eq_true_eq] at hfenced
      rcases hfenced with ⟨g, hg, hactive⟩ | hactive
      · have hbefore : s.db.fenced l.org l.ref = true :=
          List.any_eq_true.mpr ⟨g, (Table.mem_erase.mp hg).1, decide_eq_true hactive⟩
        rw [ho.unfrozen l hl hfree] at hbefore
        cases hbefore
      · -- the fence that was raised spares free credit
        simp only [Fence.sparesFree, hactive.2.2, Bool.not_true, Bool.false_or,
          Bool.not_eq_true', List.any_eq_false, decide_eq_true_eq, not_and] at hspares
        refine hspares l hl ?_ hfree
        rw [Lot.key, Fence.key, hactive.1, hactive.2.1]
    · cases hclient : s.client 0 with
      | idle => exact trivial
      | finished => exact trivial
      | _ =>
        rw [hclient] at hrest
        cases hrest

/-- **Sequential calls keep the tables orderly.** -/
theorem sequenced_of_reachVia {s : System} (h : wallets.ReachVia (fun s a => sequential s a) s) :
    Sequenced s := by
  refine Machine.ReachVia.invariant (P := Sequenced) ?_ (fun _ _ _ hs hok hn => hs.next hok hn) h
  exact ⟨orderly_init, trivial, trivial, trivial⟩

/-! ### A hold made alone -/

/-- `wallet()`; `none` where it throws. -/
def Tables.wallet (t : Tables) (c : Circumstance) (org : String) : Option Totals :=
  if (t.totals c org).conserved then some (t.totals c org) else none

/-- The first statements of a call that nothing comes between, at one instant. -/
def Call.alone (t : Tables) (c : Circumstance) (call : Call) : ℕ → Client × Tables
  | 0 => (call.start, t)
  | n + 1 => ((call.alone t c n).1).step (call.alone t c n).2 c

/-- `hold` without an admission: its six statements at most. -/
def Tables.hold (t : Tables) (c : Circumstance) (org reference : String) (amountMicros : ℕ) :
    Client × Tables :=
  (Call.debit { org := org, kind := .hold, reference := reference,
                amountMicros := amountMicros }).alone t c 6

/-- The tables once a hold has drawn its picks. -/
def Tables.held (t : Tables) (d : DebitCall) (picks : List Pick) : Tables :=
  { t with allocations := t.allocations ++ picks.map d.allocation, ledger := t.ledger ++ [d.entry] }

/-- The batch of a hold that nothing came between commits. -/
theorem Orderly.batch_eq (ho : Orderly t) (hveto : c.vetoed = false) (hkind : d.kind = .hold)
    (hclear : t.receivableClear d.org = true) (hfresh : t.entry d.org .hold d.reference = none)
    (hselect : select d.amountMicros (t.eligibleLots c d.admission d.org) = some selection) :
    d.batch selection.picks c.now c t = some (t.held d selection.picks) ∧
      (selection.picks.map Pick.lotRef).Nodup ∧
      ∀ p ∈ selection.picks, ∃ l ∈ t.lots, l.key = (d.org, p.lotRef) ∧
        t.lotPredicate c d.admission l = true ∧ (p.amount : ℤ) ≤ t.remaining l := by
  have htype : d.type = .hold := by simp [DebitCall.type, hkind]
  have hrefs : ((t.eligibleLots c d.admission d.org).map Prod.fst).Nodup := by
    unfold Tables.eligibleLots
    rw [List.map_map]
    refine ((List.perm_insertionSort _ _).map _).nodup_iff.mpr ?_
    have hkeys := ho.lot_keys
    rw [List.Nodup, List.pairwise_map] at hkeys ⊢
    refine (hkeys.filter _).imp_of_mem fun {a b} ha hb hne heq => hne ?_
    have ha' := (List.mem_filter.mp ha).2
    have hb' := (List.mem_filter.mp hb).2
    simp only [Bool.and_eq_true, decide_eq_true_eq] at ha' hb'
    exact Prod.ext (ha'.1.1.trans hb'.1.1.symm) heq
  have hpicks : (selection.picks.map Pick.lotRef).Nodup := by
    rw [select_some hselect]
    exact hrefs.sublist (draw_lotRefs _ _)
  -- each pick was drawn from an eligible lot
  have hlots : ∀ p ∈ selection.picks, ∃ l ∈ t.lots, l.key = (d.org, p.lotRef) ∧
      t.lotPredicate c d.admission l = true ∧ (p.amount : ℤ) ≤ t.remaining l := by
    intro p hp
    rw [select_some hselect] at hp
    obtain ⟨hrow, -, _⟩ := draw_mem hp
    obtain ⟨l, hl, heq⟩ := List.mem_map.mp hrow
    rw [List.mem_insertionSort, List.mem_filter] at hl
    obtain ⟨href, _⟩ := Prod.mk.inj heq
    simp only [Bool.and_eq_true, decide_eq_true_eq] at hl
    refine ⟨l, hl.1, Lot.key_eq.mpr ⟨hl.2.1.1, href⟩, hl.2.1.2, ?_⟩
    omega
  have hfree := ho.free_of_entry_none hfresh
  have hallocate : d.allocate { c with now := c.now } selection.picks t =
      { t with allocations := t.allocations ++ selection.picks.map d.allocation } := by
    refine allocate_eq ho.lot_keys hpicks (fun p _ x hx heq => ?_) hlots
    obtain ⟨horg, hty, href, -⟩ := Allocation.key_eq.mp heq
    exact hfree x hx horg (hty.trans htype) href
  have hsum : Tables.allocatedBy
      { t with allocations := t.allocations ++ selection.picks.map d.allocation }
      d.org d.type d.reference = d.amountMicros := by
    unfold Tables.allocatedBy Tables.allocatedWhere
    rw [Table.sumIf_append, Table.sumIf_eq_zero fun a ha hof => ?_,
      Table.sumIf_const (b := true) fun a ha => ?_, zero_add, if_pos rfl, List.map_map]
    · exact selection.total
    · obtain ⟨p, -, rfl⟩ := List.mem_map.mp ha
      simp [DebitCall.allocation]
    · simp only [htype, Bool.and_eq_true, decide_eq_true_eq] at hof
      exact absurd hof.2.2 (hfree a ha hof.2.1 hof.1)
  refine ⟨?_, hpicks, hlots⟩
  have hentry : t.entry d.entry.org d.entry.type d.entry.ref = none := by
    simpa [DebitCall.entry, hkind] using hfresh
  have hinsert : Tables.insertEntryOrIgnore
      { t with allocations := t.allocations ++ selection.picks.map d.allocation } d.entry =
        t.held d selection.picks := by
    have hnone : Tables.entry
        { t with allocations := t.allocations ++ selection.picks.map d.allocation }
        d.entry.org d.entry.type d.entry.ref = none := hentry
    unfold Tables.insertEntryOrIgnore Tables.insertEntry
    rw [hnone]
    rfl
  have hunfold : d.batch selection.picks c.now c t =
      (t.guard (!c.vetoed && (d.kind ≠ .rollUp || d.unused t))).bind fun t =>
        (t.guard (t.receivableClear d.org)).bind fun t =>
          ((d.allocate c selection.picks t).guard
            ((d.allocate c selection.picks t).allocatedBy d.org d.type d.reference =
              d.amountMicros)).bind fun t => some (t.insertEntryOrIgnore d.entry) := rfl
  rw [hunfold]
  simp [Tables.guard, hveto, hkind, hclear, hallocate, hsum, hinsert]

theorem Orderly.hold_eq (ho : Orderly t) (hquiet : c.refused = false) (hveto : c.vetoed = false)
    {reference : String} (hclear : t.receivableClear org = true)
    (hfresh : t.entry org .hold reference = none) {amountMicros : ℕ} (hpos : 0 < amountMicros)
    (hmax : (amountMicros : ℤ) ≤ maxSafeInteger) :
    let d : DebitCall := { org := org, kind := .hold, reference := reference,
                           amountMicros := amountMicros }
    t.hold c org reference amountMicros =
      match select amountMicros (t.eligibleLots c none org) with
      | some selection => (.finished (.debit d) .ok, t.held d selection.picks)
      | none => (.finished (.debit d) .declined, t) := by
  intro d
  have hstart : (Call.debit d).start = .debiting d .existing := by
    simp only [Call.start]
    rw [if_pos ⟨hpos, hmax⟩, if_neg (by simp [d])]
  have h1 : (Call.debit d).alone t c 1 = (.debiting d .receivable, t) := by
    show ((Call.debit d).start).step t c = _
    rw [hstart]
    show d.step t c .existing = _
    unfold DebitCall.step
    have hnone : t.entry d.org d.entryType d.reference = none := hfresh
    simp [hnone, hquiet]
  have h2 : (Call.debit d).alone t c 2 = (.debiting d .lots, t) := by
    rw [Call.alone, h1]
    show d.step t c .receivable = _
    unfold DebitCall.step
    rw [if_pos hclear]
  unfold Tables.hold
  cases hselect : select amountMicros (t.eligibleLots c none org) with
  | none =>
    have h3 : (Call.debit d).alone t c 3 = (.finished (.debit d) .declined, t) := by
      rw [Call.alone, h2]
      show d.step t c .lots = _
      unfold DebitCall.step
      have hnone : select d.amountMicros (t.eligibleLots c d.admission d.org) = none := hselect
      rw [hnone]
      rfl
    rw [Call.alone, Call.alone, Call.alone, h3]
    rfl
  | some selection =>
    have h3 : (Call.debit d).alone t c 3 = (.debiting d (.committing selection c.now), t) := by
      rw [Call.alone, h2]
      show d.step t c .lots = _
      unfold DebitCall.step
      have hsome : select d.amountMicros (t.eligibleLots c d.admission d.org) = some selection :=
        hselect
      rw [hsome]
    have h4 : (Call.debit d).alone t c 4 =
        (.finished (.debit d) .ok, t.held d selection.picks) := by
      rw [Call.alone, h3]
      show d.step t c (.committing selection c.now) = _
      have hbatch := (ho.batch_eq (d := d) hveto rfl hclear hfresh hselect).1
      simp only [DebitCall.step]
      rw [hbatch]
    rw [Call.alone, Call.alone, h4]
    rfl

section

variable (ho : Orderly t) (hveto : c.vetoed = false) (hkind : d.kind = .hold)
  (hadmission : d.admission = none) (hclear : t.receivableClear d.org = true)
  (hfresh : t.entry d.org .hold d.reference = none)
  (hselect : select d.amountMicros (t.eligibleLots c d.admission d.org) = some selection)

include ho hveto hkind hadmission hclear hfresh hselect

/-- A hold takes its amount from what is available, and adds it to what is held; what is
frozen does not grow. -/
theorem Orderly.totals_held :
    let w := t.totals c d.org
    let w' := (t.held d selection.picks).totals c d.org
    Backed (t.held d selection.picks) ∧ w'.available = w.available - d.amountMicros ∧
      w'.held = w.held + d.amountMicros ∧ w'.frozen ≤ w.frozen ∧ w'.receivable = w.receivable := by
  intro w w'
  obtain ⟨hbatch, -, hlots⟩ := ho.batch_eq hveto hkind hclear hfresh hselect
  have hrecorded : d.recorded t = false := by
    unfold DebitCall.recorded DebitCall.entryType
    rw [if_pos hkind, hfresh]
    rfl
  have hbacked : Backed (t.held d selection.picks) := by
    refine ho.toBacked.debit hbatch fun hrec => ?_
    rw [hrecorded] at hrec
    cases hrec
  have hremaining : ∀ l, (t.held d selection.picks).remaining l = t.remaining l -
      Table.sumIf (fun a => decide (a.org = l.org ∧ a.lotRef = l.ref)) Allocation.amountMicros
        (selection.picks.map d.allocation) := remaining_append t _
  refine ⟨hbacked, ?_, ?_, ?_, rfl⟩
  · have hafter := hbacked.available_eq
      (frozenCounted_of_unfrozen (t := t.held d selection.picks) ho.unfrozen c d.org)
    have hbefore := ho.toBacked.available_eq (frozenCounted_of_unfrozen ho.unfrozen c d.org)
    -- every row drawn is of a lot that passes the predicate
    have hrows : ∀ a ∈ selection.picks.map d.allocation, ∃ l ∈ t.lots,
        (decide (l.org = d.org) && t.lotPredicate c none l) = true ∧
          l.key = (a.org, a.lotRef) := by
      intro a ha
      obtain ⟨p, hp, rfl⟩ := List.mem_map.mp ha
      obtain ⟨l, hl, hk, hadmits, -⟩ := hlots p hp
      rw [hadmission] at hadmits
      exact ⟨l, hl, by simp [(Lot.key_eq.mp hk).1, hadmits], hk⟩
    have hsum := sumIf_remaining_append ho.lot_keys hrows
    have hamount : ((selection.picks.map d.allocation).map Allocation.amountMicros).sum =
        d.amountMicros := by
      rw [List.map_map]
      exact selection.total
    rw [hamount] at hsum
    rw [hafter, hbefore]
    exact hsum
  · have hentry : d.entry.org = d.org ∧ d.entry.heldDeltaMicros = d.amountMicros := by
      simp [DebitCall.entry, hkind]
    have happend := heldWhere_append t d.entry fun o _ => o = d.org
    rw [hentry.1, hentry.2, if_pos (by simp)] at happend
    exact happend
  · have hfrozen : w.frozen - w'.frozen =
        Table.sumIf (fun l => decide (l.org = d.org) && t.fenced l.org l.ref && c.current l)
          (fun l => max 0 (t.remaining l) - max 0 ((t.held d selection.picks).remaining l))
          t.lots := by
      have hsplit : w.frozen =
          Table.sumIf (fun l => decide (l.org = d.org) && t.fenced l.org l.ref && c.current l)
            (fun l => max 0 (t.remaining l) - max 0 ((t.held d selection.picks).remaining l) +
              max 0 ((t.held d selection.picks).remaining l)) t.lots := by
        refine Table.sumIf_congr fun l _ => ?_
        rw [sub_add_cancel]
      rw [Table.sumIf_add] at hsplit
      have hw' : w'.frozen =
          Table.sumIf (fun l => decide (l.org = d.org) && t.fenced l.org l.ref && c.current l)
            (fun l => max 0 ((t.held d selection.picks).remaining l)) t.lots := rfl
      omega
    have hnonneg := Table.sumIf_nonneg (p := fun l => decide (l.org = d.org) &&
      t.fenced l.org l.ref && c.current l) (g := fun l => max 0 (t.remaining l) -
        max 0 ((t.held d selection.picks).remaining l)) (t := t.lots) fun l _ _ => by
          have := hremaining l
          omega
    omega

/-- `wallet()` still answers after a hold of what was available. -/
theorem Orderly.wallet_held (hconserved : (t.totals c d.org).conserved = true)
    (hle : (d.amountMicros : ℤ) ≤ (t.totals c d.org).available) :
    ∃ w', (t.held d selection.picks).wallet c d.org = some w' ∧
      w'.available = (t.totals c d.org).available - d.amountMicros := by
  obtain ⟨hbacked, hless, _, _, _⟩ :=
    ho.totals_held hveto hkind hadmission hclear hfresh hselect
  obtain ⟨hsafe, hbounds⟩ : (t.totals c d.org).safe = true ∧ _ := by
    simpa only [Totals.conserved, Bool.and_eq_true, decide_eq_true_eq] using hconserved
  simp only [Totals.safe, Wallet.safe, Bool.and_eq_true, decide_eq_true_eq] at hsafe
  have hallocated : ((t.held d selection.picks).totals c d.org).allocatedHeld =
      ((t.held d selection.picks).totals c d.org).held :=
    (hbacked.held fun o _ => o = d.org).symm
  have hfrozen : 0 ≤ ((t.held d selection.picks).totals c d.org).frozen :=
    Table.sumIf_nonneg fun l _ _ => le_max_left ..
  -- what is held grew by what available shrank, so every figure stays in range
  have hsafe' : ((t.held d selection.picks).totals c d.org).safe = true := by
    simp only [Totals.safe, Wallet.safe, Bool.and_eq_true, decide_eq_true_eq]
    unfold Totals.available at hless hsafe hbounds hle ⊢
    omega
  have hconserved' := hbacked.conserved hsafe'
    (frozenCounted_of_unfrozen (t := t.held d selection.picks) ho.unfrozen c d.org)
  unfold Tables.wallet
  rw [if_pos hconserved']
  exact ⟨_, rfl, hless⟩

end

/-- **The wallet's figure is what can be spent.**  After every sequential run `wallet()`
answers where its figures can be represented, and at the same instant a hold under a new
reference succeeds exactly when its amount is at most `availableMicros`; it then lowers
`availableMicros` by its amount, and otherwise changes nothing. -/
theorem hold_spends_available {s : System} (h : wallets.ReachVia (fun s a => sequential s a) s)
    {c : Circumstance} (hquiet : c.refused = false) (hveto : c.vetoed = false) {org : String}
    (hclear : s.db.receivableClear org = true) :
    ((s.db.totals c org).safe = true → (s.db.wallet c org).isSome = true) ∧
    ∀ w, s.db.wallet c org = some w → ∀ reference, s.db.entry org .hold reference = none →
      ∀ amountMicros, 0 < amountMicros →
        let result := s.db.hold c org reference amountMicros
        (result.1.reply = some .ok ↔ (amountMicros : ℤ) ≤ w.available) ∧
        (result.1.reply = some .ok → ∃ w', result.2.wallet c org = some w' ∧
          w'.available = w.available - amountMicros) ∧
        (result.1.reply ≠ some .ok → result.2 = s.db) := by
  have ho := (sequenced_of_reachVia h).orderly
  have hcounted := frozenCounted_of_unfrozen ho.unfrozen c org
  refine ⟨fun hsafe => ?_, fun w hw reference hfresh amountMicros hpos => ?_⟩
  · unfold Tables.wallet
    rw [ho.toBacked.conserved hsafe hcounted]
    rfl
  unfold Tables.wallet at hw
  split at hw
  swap
  · cases hw
  cases hw
  next hconserved =>
  have hsafe : (s.db.totals c org).safe = true := by
    rw [Totals.conserved, Bool.and_eq_true] at hconserved
    exact hconserved.1
  simp only [Totals.safe, Wallet.safe, Bool.and_eq_true, decide_eq_true_eq] at hsafe
  by_cases hmax : (amountMicros : ℤ) ≤ maxSafeInteger
  swap
  · -- `positiveAmount` refuses what the wallet cannot even represent
    have hthrown : s.db.hold c org reference amountMicros =
        (.finished (.debit { org := org, kind := .hold, reference := reference,
                             amountMicros := amountMicros }) (.thrown .invalidAmount), s.db) := by
      unfold Tables.hold
      simp only [Call.alone, Call.start]
      rw [if_neg fun hv => hmax hv.2]
      rfl
    rw [hthrown]
    refine ⟨⟨fun hok => ?_, fun hle => ?_⟩, fun hok => ?_, fun _ => rfl⟩
    · simp [Client.reply] at hok
    · omega
    · simp [Client.reply] at hok
  have hrun := ho.hold_eq hquiet hveto hclear hfresh hpos hmax
  have hlots := eligibleLots_sum ho.toCovered c none org
  rw [← ho.toBacked.available_eq hcounted] at hlots
  have hiff : (select amountMicros (s.db.eligibleLots c none org)).isSome ↔ _ := select_isSome
  -- the lots cover the amount exactly where it is available
  cases hselect : select amountMicros (s.db.eligibleLots c none org) with
  | none =>
    rw [hselect] at hrun hiff
    simp only [Option.isSome_none, Bool.false_eq_true, false_iff, not_le] at hiff
    rw [hrun]
    refine ⟨⟨fun hok => ?_, fun hle => ?_⟩, fun hok => ?_, fun _ => rfl⟩
    · simp [Client.reply] at hok
    · omega
    · simp [Client.reply] at hok
  | some =>
    rw [hselect] at hrun hiff
    simp only [Option.isSome_some, true_iff] at hiff
    rw [hrun]
    refine ⟨⟨fun _ => by omega, fun _ => rfl⟩, fun _ => ?_, fun hok => absurd rfl hok⟩
    have hle : (amountMicros : ℤ) ≤ (s.db.totals c org).available := by omega
    exact ho.wallet_held (d := { org := org, kind := .hold, reference := reference,
                                 amountMicros := amountMicros })
      hveto rfl rfl hclear hfresh hselect hconserved hle

/-- Two lots, the first of which expires; a hold across both is captured in part, and usage is
debited. -/
def spendingRun : List WalletAction :=
  .call 0 (.fund { org := "org", fundingRef := "trial", amountMicros := 50,
                   consumptionClass := .free, expiresAt := some 10 }) :: advance 0 6 0 ++
  .call 0 (.fund { org := "org", fundingRef := "plan", amountMicros := 100,
                   consumptionClass := .subscription }) :: advance 0 6 1 ++
  .call 0 (.debit { org := "org", kind := .hold, reference := "job", amountMicros := 60 }) ::
    advance 0 4 2 ++
  .call 0 (.settle { org := "org", type := .capture, reference := "job", amountMicros := 20 }) ::
    advance 0 6 3 ++
  .call 0 (.debit { org := "org", kind := .usage, reference := "calls", amountMicros := 15 }) ::
    advance 0 4 4

/-- Once the first lot has expired, 75 are left of the second. -/
theorem hold_spends_available_spendingRun : ∃ (s : System) (w w' : Totals),
    s.db.wallet { now := 20 } "org" = some w ∧ w.available = 75 ∧
      (s.db.hold { now := 20 } "org" "next" 75).1.reply = some .ok ∧
      (s.db.hold { now := 20 } "org" "next" 75).2.wallet { now := 20 } "org" = some w' ∧
      w'.available = w.available - (75 : ℕ) ∧
      (s.db.hold { now := 20 } "org" "next" 76).1.reply ≠ some .ok := by
  obtain ⟨s, hs, hp⟩ := Machine.exists_reachVia_of_run (M := wallets) sequential spendingRun
    (fun s => decide ((s.db.wallet { now := 20 } "org").map Totals.available = some 75) &&
      s.db.receivableClear "org" && (s.db.entry "org" .hold "next").isNone) (by decide +kernel)
  simp only [Bool.and_eq_true, decide_eq_true_eq, Option.isNone_iff_eq_none] at hp
  obtain ⟨⟨hwallet, hclear⟩, hfresh⟩ := hp
  obtain ⟨w, hw, havailable⟩ := Option.map_eq_some_iff.mp hwallet
  have hspends := (hold_spends_available hs (c := { now := 20 }) rfl rfl hclear).2 w hw "next" hfresh
  obtain ⟨hiff, hless, -⟩ := hspends 75 (by omega)
  have hok := hiff.mpr (by omega)
  obtain ⟨w', hw', havailable'⟩ := hless hok
  refine ⟨s, w, w', hw, havailable, hok, hw', havailable', fun hok' => ?_⟩
  have := (hspends 76 (by omega)).1.mp hok'
  omega

end Takoserver.Wallet
