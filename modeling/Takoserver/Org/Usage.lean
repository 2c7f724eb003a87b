import Takoserver.Org.Holds

/-!
# Usage records and their books

What every usage record is like, and what the wallet has of it: nothing while it is
pending, and once it is paid one debit of its amount with allocations that add up to
it.  The amount is the exact price of the quantity, rounded up to a whole micro.
-/

namespace Takoserver.Org

open Wallet (Instant SameBooks Blank Allocation)

variable {t t' : Tables} {c : Circumstance}

/-! ### Prices -/

/-- The rational number. -/
def Quantity.value (q : Quantity) : ℚ := q.numerator / q.denominator

/-- The price of a quantity at a rate, by the unit of its meter. -/
def Meter.price (m : Meter) (value : ℚ) : ℚ :=
  value * (m.numeratorMicros / m.denominator) / if m.unit = "byte-hour" then 3600000 else 1

/-- Rounding up a quotient. -/
theorem natCeil_div (n d : ℕ) (hd : 0 < d) : (((n + d - 1) / d : ℕ) : ℤ) = ⌈((n : ℚ) / d)⌉ := by
  have hd' : (0 : ℚ) < d := by exact_mod_cast hd
  have hmod := Nat.div_add_mod (n + d - 1) d
  have hlt := Nat.mod_lt (n + d - 1) hd
  symm
  rw [Int.ceil_eq_iff, lt_div_iff₀ hd', div_le_iff₀ hd']
  generalize (n + d - 1) / d = k at hmod
  generalize (n + d - 1) % d = r at hmod hlt
  constructor
  · have : (d * k : ℤ) < n + d := by
      have : d * k < n + d := by omega
      exact_mod_cast this
    have : ((d * k : ℤ) : ℚ) < ((n + d : ℤ) : ℚ) := by exact_mod_cast this
    push_cast at this ⊢
    linarith
  · have : n ≤ d * k := by omega
    have : (n : ℚ) ≤ ((d * k : ℕ) : ℚ) := by exact_mod_cast this
    push_cast at this ⊢
    linarith

/-- The integer computation is the exact price rounded up. -/
theorem computeMeterAmountMicros_some {quantity denominator amount : ℕ} {m : Meter}
    (h : computeMeterAmountMicros quantity m denominator = some amount) :
    0 < m.denominator ∧ 0 < denominator ∧ (amount : ℤ) =
      ⌈((quantity * m.numeratorMicros : ℕ) : ℚ) / ((m.denominator * denominator : ℕ) : ℚ)⌉ := by
  unfold computeMeterAmountMicros at h
  split at h
  · cases h
  next hpos =>
  rw [not_or, not_or] at hpos
  dsimp only at h
  split at h
  · cases h
    have hd : 0 < m.denominator * denominator :=
      Nat.mul_pos (Nat.pos_of_ne_zero hpos.2.2) (Nat.pos_of_ne_zero hpos.1)
    exact ⟨Nat.pos_of_ne_zero hpos.2.2, Nat.pos_of_ne_zero hpos.1, natCeil_div _ _ hd⟩
  · cases h

theorem UsageInput.amount_ok {x : UsageInput} {q : Quantity} {m : Meter} {amount : ℕ}
    (h : x.amount q m = .ok amount) : (amount : ℤ) = ⌈m.price q.value⌉ := by
  unfold UsageInput.amount at h
  have hok : ∀ o : Option ℕ, o.elim (.error ErrorCode.invalidAmount) Except.ok = .ok amount →
      o = some amount := by
    intro o ho
    cases o with
    | none => cases ho
    | some n =>
      cases ho
      rfl
  split at h
  · next hunit =>
    split at h
    · next hq =>
      obtain ⟨-, -, heq⟩ := computeMeterAmountMicros_some (hok _ h)
      rw [heq, Meter.price, if_pos hunit, Quantity.value, hq.2]
      congr 1
      push_cast
      field_simp
    · cases h
  · next hunit =>
    split at h
    · obtain ⟨-, -, heq⟩ := computeMeterAmountMicros_some (hok _ h)
      rw [heq, Meter.price, if_neg hunit, Quantity.value]
      congr 1
      push_cast
      field_simp
    · cases h

/-! ### What a record is like -/

variable {m : Wallet.Tables}

namespace UsageRecord

/-- `r` is the record `u`, or `u` paid. -/
def Evolves (u r : UsageRecord) : Prop :=
  r = u ∨ (u.state = .pending ∧ ∃ instant, r = u.paid instant)

variable {u r r' : UsageRecord}

theorem Evolves.refl (u : UsageRecord) : u.Evolves u := Or.inl rfl

theorem Evolves.trans (h₁ : u.Evolves r) (h₂ : r.Evolves r') : u.Evolves r' := by
  rcases h₁ with rfl | ⟨hp, instant, rfl⟩
  · exact h₂
  · rcases h₂ with rfl | ⟨hp', -⟩
    · exact Or.inr ⟨hp, instant, rfl⟩
    · cases hp'

theorem Evolves.key (he : u.Evolves r) : r.key = u.key := by
  rcases he with rfl | ⟨-, instant, rfl⟩ <;> rfl

theorem Evolves.fingerprint (he : u.Evolves r) : r.fingerprint = u.fingerprint := by
  rcases he with rfl | ⟨-, instant, rfl⟩ <;> rfl

theorem Evolves.amountMicros (he : u.Evolves r) : r.amountMicros = u.amountMicros := by
  rcases he with rfl | ⟨-, instant, rfl⟩ <;> rfl

/-- The price of a record: that of its quantity under its meter of its tariff, at its own
rate. -/
def Priced (u : UsageRecord) (tariffs : List Tariff) : Prop :=
  ∃ q, decimalQuantity u.quantity = some q ∧
    ∃ tariff ∈ tariffs, tariff.revision = u.pricingRevision ∧
      ∃ m, tariff.meters.find? (fun m => m.name = u.meter) = some m ∧
        u.rateNumeratorMicros = m.numeratorMicros ∧ u.rateDenominator = m.denominator ∧
        (u.amountMicros : ℤ) = ⌈m.price q.value⌉

theorem Priced.mono {tariffs tariffs' : List Tariff} (h : u.Priced tariffs)
    (hsub : ∀ y ∈ tariffs, y ∈ tariffs') : u.Priced tariffs' := by
  obtain ⟨q, hq, tariff, htariff, hrest⟩ := h
  exact ⟨q, hq, tariff, hsub tariff htariff, hrest⟩

/-- The entry that pays a record. -/
def entry (u : UsageRecord) : Wallet.Entry :=
  ⟨u.org, .usageDebit, usageRef u.ref, -u.amountMicros, 0⟩

/-- The books of the reference of a usage record. -/
structure Booked (u : UsageRecord) (m : Wallet.Tables) : Prop where
  unpaid : u.state = .pending ∨ u.amountMicros = 0 → Blank m u.org (usageRef u.ref)
  paid : u.state = .paid → 0 < u.amountMicros →
    m.ledgerOf u.org (usageRef u.ref) = [u.entry] ∧
      m.allocatedBy u.org .usageDebit (usageRef u.ref) = u.amountMicros ∧
      ∀ a ∈ m.allocationsOf u.org (usageRef u.ref), a.debitType = .usageDebit

theorem Booked.frame {m' : Wallet.Tables} (hb : u.Booked m)
    (hs : SameBooks m m' u.org (usageRef u.ref)) : u.Booked m' := by
  refine ⟨fun h => hs.blank (hb.unpaid h), fun hp hpos => ?_⟩
  obtain ⟨hl, ha, _⟩ := hb.paid hp hpos
  exact ⟨hs.ledger.trans hl, (hs.allocatedBy .usageDebit).trans ha, by rwa [hs.allocations]⟩

/-- No hold is among a record's allocations. -/
theorem Booked.debitType (hb : u.Booked m) {a : Allocation}
    (ha : a ∈ m.allocationsOf u.org (usageRef u.ref)) : a.debitType = .usageDebit := by
  by_cases hun : u.state = .pending ∨ u.amountMicros = 0
  · rw [(hb.unpaid hun).allocations] at ha
    cases ha
  · rw [not_or] at hun
    have hpaid : u.state = .paid := by
      cases hs : u.state
      · exact absurd hs hun.1
      · rfl
    exact (hb.paid hpaid (Nat.pos_of_ne_zero hun.2)).2.2 a ha

end UsageRecord

/-- Every usage record is there still, or is there paid. -/
def Tables.UsageEvolve (t t' : Tables) : Prop := ∀ u ∈ t.usage, ∃ r ∈ t'.usage, u.Evolves r

theorem Tables.UsageEvolve.of_eq (h : t'.usage = t.usage) : t.UsageEvolve t' := fun u hu =>
  ⟨u, by rw [h]; exact hu, .refl u⟩

/-- Every usage record is priced and booked, and no other reference of a record has any
books. -/
def UsageKept (t : Tables) : Prop :=
  Table.Kept UsageRecord.key (fun u => u.Priced t.tariffs ∧ u.Booked t.money)
    (fun k => Blank t.money k.1 (usageRef k.2)) t.usage

namespace UsageKept

variable {org ref : String} {u : UsageRecord}

section

variable (hk : UsageKept t)

include hk

theorem row_iff :
    t.usageRow org ref = some u ↔ u ∈ t.usage ∧ u.key = (org, ref) :=
  Table.find_eq_some_iff hk.keys

theorem priced (hu : u ∈ t.usage) : u.Priced t.tariffs :=
  (hk.rows u hu).1

theorem booked (hu : u ∈ t.usage) : u.Booked t.money :=
  (hk.rows u hu).2

theorem blank (hnone : t.usageRow org ref = none) :
    Blank t.money org (usageRef ref) :=
  hk.free (org, ref) (Table.find_none.mp hnone)

/-- No hold is ever allocated under the reference of a usage record. -/
theorem debitType {a : Allocation} (ha : a ∈ t.money.allocations) (ho : a.org = org)
    (hr : a.debitRef = usageRef ref) :
    a.debitType = .usageDebit := by
  have hmem : a ∈ t.money.allocationsOf org (usageRef ref) :=
    List.mem_filter.mpr ⟨ha, decide_eq_true ⟨ho, hr⟩⟩
  cases hu : t.usageRow org ref with
  | none =>
    rw [(hk.blank hu).allocations] at hmem
    cases hmem
  | some u =>
    obtain ⟨hin, rfl, rfl⟩ := Tables.usageRow_some hu
    exact (hk.booked hin).debitType hmem

end

theorem ref_ne {r : UsageRecord} (hne : u.key ≠ r.key) :
    ¬(r.org = u.org ∧ usageRef r.ref = usageRef u.ref) := by
  rintro ⟨ho, hr⟩
  exact hne (UsageRecord.key_eq.mpr ⟨ho.symm, usageRef_inj.mp hr.symm⟩)

/-- A batch that leaves the records, and their books, keeps them. -/
theorem frame (hk : UsageKept t) (hrows : t'.usage = t.usage)
    (htariffs : ∀ y ∈ t.tariffs, y ∈ t'.tariffs)
    (hs : ∀ org ref, SameBooks t.money t'.money org (usageRef ref)) : UsageKept t' := by
  unfold UsageKept
  rw [hrows]
  exact hk.mono (fun u _ hu => ⟨hu.1.mono htariffs, hu.2.frame (hs _ _)⟩) fun k hb =>
    (hs _ _).blank hb

/-! ### The batches on usage records -/

/-- The batch that inserts a pending record. -/
theorem record (hk : UsageKept t) {x : UsageInput} (hpending : u.state = .pending)
    (hpriced : u.Priced t.tariffs) (h : x.batch u c t = some t') :
    UsageKept t' ∧ t.UsageEvolve t' := by
  obtain ⟨-, hfree, rfl⟩ := UsageInput.batch_cases h
  refine ⟨hk.insert (Table.find_none.mp hfree) ⟨hpriced, ⟨fun _ => hk.blank hfree, ?_⟩⟩
    (fun _ _ _ hr => hr) fun _ _ hb => hb, fun r hr => ⟨r, List.mem_append_left _ hr, .refl r⟩⟩
  intro hpaid
  rw [hpending] at hpaid
  cases hpaid

theorem booked_of_debit {plan : PayPlan u.amountMicros}
    (hb : Blank t.money u.org (usageRef u.ref))
    (hn : (t.money.allocations.map Allocation.key).Nodup)
    (hm : (u.debit plan.admission).batch plan.selection.picks plan.instant c.toCircumstance
      t.money = some m) :
    m.ledgerOf u.org (usageRef u.ref) = [u.entry] ∧
      m.allocatedBy u.org .usageDebit (usageRef u.ref) = u.amountMicros ∧
      ∀ a ∈ m.allocationsOf u.org (usageRef u.ref), a.debitType = .usageDebit := by
  obtain ⟨_, entries, rfl, hrows, -, hsum, hentries⟩ := Wallet.DebitCall.batch_books hn hm
  refine ⟨?_, hsum, ?_⟩
  · have hentry : entries = [u.entry] := by
      rcases hentries with ⟨-, hsome⟩ | ⟨heq, -⟩
      · -- the reference had no debit
        obtain ⟨e, he⟩ := Option.isSome_iff_exists.mp hsome
        obtain ⟨hmem, hkey⟩ := Wallet.Tables.entry_some he
        rw [Wallet.Entry.key_eq] at hkey
        have hin : e ∈ t.money.ledgerOf u.org (usageRef u.ref) :=
          List.mem_filter.mpr ⟨hmem, decide_eq_true ⟨hkey.1, hkey.2.2, fun hf => by
            rw [hkey.2.1] at hf
            cases hf⟩⟩
        rw [hb.ledger] at hin
        cases hin
      · exact heq
    have hledger := hb.ledger
    unfold Wallet.Tables.ledgerOf at hledger ⊢
    rw [List.filter_append, hledger, List.nil_append, hentry]
    simp [UsageRecord.entry]
  · intro a ha
    have halloc := hb.allocations
    unfold Wallet.Tables.allocationsOf at halloc ha
    rw [List.filter_append, halloc, List.nil_append] at ha
    exact (hrows a (List.mem_of_mem_filter ha)).2.1

/-- The batch that pays a record. -/
theorem pay (hk : UsageKept t) (hn : (t.money.allocations.map Allocation.key).Nodup)
    (hu : ∃ r ∈ t.usage, u.Evolves r) {plan : PayPlan u.amountMicros}
    (h : u.batch plan c t = some t') : UsageKept t' ∧ t.UsageEvolve t' := by
  obtain ⟨⟨r, hr, hkey, hpending⟩, -, m, rfl, hzero, hpos⟩ := UsageRecord.batch_cases h
  -- the record it pays is the one it planned for
  have hamount : r.amountMicros = u.amountMicros := by
    obtain ⟨_, hr', he⟩ := hu
    rw [Table.eq_of_key hk.keys hr hr' (hkey.trans he.key.symm)]
    exact he.amountMicros
  obtain ⟨ho, href⟩ := UsageRecord.key_eq.mp hkey
  have hblank : Blank t.money u.org (usageRef u.ref) := by
    rw [← ho, ← href]
    exact (hk.booked hr).unpaid (Or.inl hpending)
  have hs : ∀ org ref, ¬(r.org = org ∧ usageRef r.ref = usageRef ref) →
      SameBooks t.money m org (usageRef ref) := by
    intro org ref hne
    by_cases hamount : u.amountMicros = 0
    · rw [hzero hamount]
      exact .refl _ _ _
    · refine Wallet.DebitCall.batch_sameBooks hn (hpos hamount) ?_
      rw [ho, href] at hne
      exact hne
  refine ⟨?_, fun s hs => ?_⟩
  · refine hk.update (f := UsageRecord.paid plan.instant) hr (fun s _ hs => ?_)
      (by simp [hkey, hpending]) rfl ⟨show r.Priced t.tariffs from hk.priced hr,
        ⟨fun hun => ?_, fun _ hamountPos => ?_⟩⟩
      (fun s _ hne hb => ⟨hb.1, hb.2.frame (hs _ _ (ref_ne hne))⟩) fun k hne hb => ?_
    · rw [decide_eq_true_eq] at hs
      exact hs.1.trans hkey.symm
    · rcases hun with hun | hun
      · cases hun
      · have hun' : u.amountMicros = 0 := hamount.symm.trans hun
        show Blank m r.org (usageRef r.ref)
        rw [hzero hun', ho, href]
        exact hblank
    · have hne : u.amountMicros ≠ 0 := by
        have : 0 < r.amountMicros := hamountPos
        omega
      have := booked_of_debit hblank hn (hpos hne)
      show m.ledgerOf r.org (usageRef r.ref) = [⟨r.org, .usageDebit, usageRef r.ref,
          -r.amountMicros, 0⟩] ∧ m.allocatedBy r.org .usageDebit (usageRef r.ref) = r.amountMicros ∧
        ∀ a ∈ m.allocationsOf r.org (usageRef r.ref), a.debitType = .usageDebit
      rw [ho, href, hamount]
      exact this
    · refine (hs k.1 k.2 ?_).blank hb
      rintro ⟨ho', hr'⟩
      exact hne (by rw [UsageRecord.key, ho', usageRef_inj.mp hr'])
  · refine ⟨_, Table.mem_update_of_mem
      (p := fun r => decide (r.key = u.key ∧ r.state = .pending))
      (f := UsageRecord.paid plan.instant) hs, ?_⟩
    split
    · next hp =>
      rw [decide_eq_true_eq] at hp
      exact Or.inr ⟨hp.2, _, rfl⟩
    · exact .refl s

end UsageKept

end Takoserver.Org
