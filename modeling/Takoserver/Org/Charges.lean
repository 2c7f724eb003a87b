import Takoserver.Org.Changes

/-!
# Usage is charged once

A usage record is inserted once and paid once, in the batch that debits its amount; the
amount is its price; and while one is pending no hold is admitted.  A call whose
reference has a record of another signature changes nothing.
-/

namespace Takoserver.Org

open Wallet (Instant SameBooks Blank)

variable {t t' : Tables} {c : Circumstance}

/-! ### What a usage call changes -/

theorem owns_of_writes {client : Client} {x : UsageInput} (hmade : client.made = some (.usage x))
    (hfit : client.Fit) (hknow : client.Knows t) (hw : Writes c t client t')
    (hg : t.Grows t') : ∃ u ∈ t'.usage, x.Owns u := by
  cases hw with
  | hold | release | grant | grantOnDemand | refund => cases hmade
  | close =>
    cases Option.some.inj hmade
    cases hfit.2
  | @record _ _ u _ h =>
    cases hmade
    obtain ⟨-, -, rfl⟩ := UsageInput.batch_cases h
    exact ⟨u, List.mem_append_right _ (List.mem_singleton_self u), hknow.1⟩
  | @pay =>
    cases hmade
    obtain ⟨r, hr, he⟩ := hknow.2.mono hg
    exact ⟨r, hr, hknow.1.evolve he⟩
  | observe ho =>
    cases client <;> simp_all [Client.observes, Client.made]
  | @wallet w =>
    cases hw : caller w <;> simp [Client.made, hw] at hmade

/-- A usage call that changed anything owns the record of its reference. -/
theorem charged_of_reachable {s : System} (h : orgs.Reachable s) {i : ℕ} {x : UsageInput}
    (hmade : (s.client i).made = some (.usage x)) (hchanges : s.changes i ≠ 0) :
    ∃ u ∈ s.db.usage, x.Owns u := by
  refine changed_of_reachable
    (P := fun call t => ∀ x, call = .usage x → ∃ u ∈ t.usage, x.Owns u) (Q := fun _ _ => True)
    (fun _ _ _ => trivial) ?_ ?_ h i _ hmade hchanges x rfl
  · rintro _ t _ hg hp x rfl
    obtain ⟨u, hu, hown⟩ := hp x rfl
    obtain ⟨r, hr, he⟩ := hg.usage u hu
    exact ⟨r, hr, hown.evolve he⟩
  · rintro _ _ c t _ hmade hfit hknow - - hw hg x rfl
    exact owns_of_writes hmade hfit hknow hw hg

/-! ### Holds while usage is pending -/

/-- A row that a step inserts is one a release leaves under an unknown reference, or was
admitted while the organization owed nothing. -/
theorem admitted_of_writes (hk : Kept t) {client : Client} (hw : Writes c t client t') {h : Hold}
    (hh : h ∈ t'.holds) (hnew : t.held h.org h.ref = none) :
    h = tombstone h.org h.ref c.now ∨
      (t.pendingUsage h.org = false ∧ t.money.receivableClear h.org = true) := by
  have hnot : h ∉ t.holds := fun hmem => by
    rw [hk.holds.held_of_mem hmem] at hnew
    cases hnew
  have hkeys : ∀ {p : Hold → Bool} {f : Hold → Hold}, (∀ r, (f r).key = r.key) →
      h ∉ Table.update p f t.holds := by
    intro p f hf hmem
    rcases Table.mem_update.mp hmem with ⟨hmem, -⟩ | ⟨r, hr, -, rfl⟩
    · exact hnot hmem
    · obtain ⟨ho, href⟩ := Hold.key_eq.mp (hf r)
      rw [ho, href, hk.holds.held_of_mem hr] at hnew
      cases hnew
  cases hw with
  | hold h' =>
    obtain ⟨-, hpending, hclear, -, m, rfl, -⟩ := HoldInput.batch_cases h'
    rcases Table.mem_insert.mp hh with hh | rfl
    · exact absurd hh hnot
    · exact Or.inr ⟨hpending, hclear⟩
  | release h' =>
    obtain ⟨-, rfl⟩ := Tables.insertHold_some h'
    rcases Table.mem_insert.mp hh with hh | rfl
    · exact absurd hh hnot
    · exact Or.inl rfl
  | close h' =>
    obtain ⟨-, -, -, -, rfl, -⟩ := Closing.batch_cases h' hk.holds.allocation_keys
    exact absurd hh (hkeys fun _ => rfl)
  | @refund r plan _ h' =>
    obtain ⟨-, t₁, h₁, -, -, -, -, _, rfl⟩ := RefundInput.batch_cases h'
    refine absurd hh ?_
    -- each closure keeps the keys of the rows
    have hmap : t₁.holds.map Hold.key = t.holds.map Hold.key := by
      refine RefundInput.closeHolds_induction
        (P := fun u => u.holds.map Hold.key = t.holds.map Hold.key) (fun x _ u u' hu hc => ?_) h₁ rfl
      obtain ⟨-, m, -, rfl⟩ := RefundInput.closeHold_cases hc
      refine Eq.trans ?_ hu
      split
      · exact Table.map_update (f := RefundInput.released plan.now) (g := Hold.key) (fun _ => rfl) _
      · rfl
    intro hmem
    obtain ⟨_, hr', hkey⟩ := Table.exists_of_map_eq hmap hmem
    obtain ⟨ho, href⟩ := Hold.key_eq.mp hkey
    have := hk.holds.held_of_mem hr'
    rw [ho, href, hnew] at this
    cases this
  | record h' =>
    obtain ⟨-, -, rfl⟩ := UsageInput.batch_cases h'
    exact absurd hh hnot
  | pay h' =>
    obtain ⟨-, -, m, rfl, -⟩ := UsageRecord.batch_cases h'
    exact absurd hh hnot
  | grant h' =>
    obtain ⟨-, ⟨-, -, -, -, rfl⟩ | ⟨-, rfl⟩⟩ := Grant.batch_cases h' <;> exact absurd hh hnot
  | grantOnDemand h' =>
    obtain ⟨-, -, -, -, _, _, rfl⟩ := NativeProof.grantBatch_cases h'
    exact absurd hh hnot
  | observe _ h' =>
    rw [h'.holds] at hh
    exact absurd hh hnot
  | wallet => exact absurd hh hnot

/-- **Usage is charged exactly once.**  Each organization and reference has at most one usage
record, which stays what it is but for becoming paid, once.  While it is pending, and where
its amount is zero, the wallet has nothing of its reference; once it is paid, exactly the one
debit of its amount, with allocations that add up to it.  The amount is the price of the
quantity at the recorded rate, rounded up.  No hold is admitted while a record of the
organization is pending or a refund left a receivable.  And a call whose reference has a
record of another signature has changed nothing, and can only be refused: what `prepare` and
the funding on demand write for it counts as calls of their own. -/
theorem usage_charged_once {s : System} (h : orgs.Reachable s) :
    (s.db.usage.map UsageRecord.key).Nodup ∧
      (∀ s', orgs.Path s s' → ∀ u ∈ s.db.usage, ∃ r ∈ s'.db.usage, u.Evolves r) ∧
      (∀ u ∈ s.db.usage, u.Booked s.db.money ∧ u.Priced s.db.tariffs) ∧
      (∀ org ref, s.db.usageRow org ref = none → Blank s.db.money org (usageRef ref)) ∧
      (∀ a s', orgs.next s a = some s' → ∀ r ∈ s'.db.holds, s.db.held r.org r.ref = none →
        r = tombstone r.org r.ref s.clock ∨
          (s.db.pendingUsage r.org = false ∧ s.db.money.receivableClear r.org = true)) ∧
      ∀ i x, (s.client i).made = some (.usage x) →
        ∀ u ∈ s.db.usage, u.key = (x.org, x.reference) → u.fingerprint ≠ x.signature →
          s.changes i = 0 ∧
            ∀ reply, s.client i = .finished (.usage x) reply → ∃ code, reply = .thrown code := by
  have hk := kept_of_reachable h
  refine ⟨hk.db.usage.keys, fun s' hp => (grows_of_path h hp).usage,
    fun u hu => ⟨hk.db.usage.booked hu, hk.db.usage.priced hu⟩,
    fun org ref hnone => hk.db.usage.blank hnone, fun a s' hn r hr hnew => ?_,
    fun i x hmade u hu hkey hne => ⟨?_, fun reply hfin => ?_⟩⟩
  · -- a new row is of a hold that found no debt, or of a release
    have hnot : r ∉ s.db.holds := fun hmem => by
      rw [hk.db.holds.held_of_mem hmem] at hnew
      cases hnew
    cases a with
    | step i c =>
      simp only [orgs, Option.some.injEq] at hn
      subst hn
      rcases writes_of_step (s.client i) s.db (c.atClock s.clock) with heq | hw
      · rw [show _ = s.db.holds from congrArg Tables.holds heq] at hr
        exact absurd hr hnot
      · exact admitted_of_writes hk.db hw hr hnew
    | call =>
      cases hn
      exact absurd hr hnot
    | crash i =>
      cases hn
      exact absurd hr hnot
    | tick =>
      simp only [orgs] at hn
      split at hn
      · cases hn
        exact absurd hr hnot
      · cases hn
    | register y =>
      simp only [orgs, Option.map_eq_some_iff, Tables.registerTariff] at hn
      obtain ⟨_, ht', rfl⟩ := hn
      split at ht'
      · cases ht'
      · cases ht'
        exact absurd hr hnot
  · -- a call that changed anything owns the record
    by_contra hchanges
    obtain ⟨_, hu', hown⟩ := charged_of_reachable h hmade hchanges
    obtain rfl := Table.eq_of_key hk.db.usage.keys hu hu' (hkey.trans hown.1.symm)
    exact hne hown.2
  · have hfit := hk.fit i
    have hknow := hk.knows i
    rw [hfin] at hfit hknow
    cases reply with
    | thrown code => exact ⟨code, rfl⟩
    | usage u' =>
      obtain ⟨hown, r, hr, he⟩ := hknow
      have hown' := hown.evolve he
      obtain rfl := Table.eq_of_key hk.db.usage.keys hu hr (hkey.trans hown'.1.symm)
      exact absurd hown'.2 hne
    | hold row | receipt row | generation n | done => cases hfit

/-! ### A usage that is paid -/

/-- The next `n` statements of a client. -/
def advance (i n : ℕ) : List Action := List.replicate n (.step i { now := 0 })

/-- A usage of 5 at 3 for 2, recorded and paid out of a lot of 100. -/
def chargedRun : List Action :=
  .register ⟨"r", 0, 60, [⟨"m", "unit", 3, 2⟩]⟩ ::
  .call 0 (.wallet (.fund { org := "org", fundingRef := "lot", amountMicros := 100,
                            consumptionClass := .subscription })) :: advance 0 6 ++
  .tick 10 ::
  .call 0 (.usage { org := "org", reference := "u", meter := "m", quantity := "5",
                    quantityUnit := "unit", periodStart := 0, periodEnd := 5,
                    pricingRevision := "r", expectedMicros := 8,
                    measurementFingerprint := "f" }) :: advance 0 11

/-- `usage_charged_once` at the end of `chargedRun`, where the record is paid. -/
theorem usage_charged_once_chargedRun : ∃ s, orgs.Reachable s ∧
    (∃ u ∈ s.db.usage, u.state = .paid ∧ u.amountMicros = 8) ∧
      ∀ u ∈ s.db.usage, u.Booked s.db.money ∧ u.Priced s.db.tariffs := by
  obtain ⟨s, hr, hp⟩ := Machine.exists_reachable_of_run (M := orgs) chargedRun
    (fun s => s.db.usage.any fun u => u.state = .paid ∧ u.amountMicros = 8) (by decide +kernel)
  refine ⟨s, hr, ?_, (usage_charged_once hr).2.2.1⟩
  simpa using hp

end Takoserver.Org
