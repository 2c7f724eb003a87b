import Takoserver.Org.Answers

/-!
# The life cycle of a hold

A hold row leaves `live` once, captured or released before its deadline, expired at it
or after it, or released by a refund; its books follow it; and every call on it is
answered from the row that won.
-/

namespace Takoserver.Org

open Wallet (Instant Blank)

variable {t t' : Tables} {c : Circumstance}

/-! ### Frozen lots -/

theorem eq_of_same_holds (hk : Kept t) (hh : t'.holds = t.holds) {r r' : Hold} (hr : r ∈ t.holds)
    (hr' : r' ∈ t'.holds) (hkey : r'.key = r.key) : r' = r := by
  rw [hh] at hr'
  exact Table.eq_of_key hk.holds.rows.keys hr' hr hkey

/-- Nothing is captured of a hold while a fence freezes one of its lots. -/
theorem unfenced_of_captured (hk : Kept t) {client : Client} (hfit : client.Fit)
    (hw : Writes c t client t') {r r' : Hold} (hr : r ∈ t.holds) (hlive : r.state = .live)
    (hr' : r' ∈ t'.holds) (hkey : r'.key = r.key) (hcaptured : r'.state = .captured) :
    t.money.holdFenced r.org r.ledgerRef = false := by
  have hsame : t'.holds = t.holds → t.money.holdFenced r.org r.ledgerRef = false := by
    intro hh
    rw [eq_of_same_holds hk hh hr hr' hkey, hlive] at hcaptured
    cases hcaptured
  cases hw with
  | hold h =>
    obtain ⟨-, -, -, -, m, rfl, -⟩ := HoldInput.batch_cases h
    rcases List.mem_append.mp hr' with hmem | hmem
    · rw [Table.eq_of_key hk.holds.rows.keys hmem hr hkey, hlive] at hcaptured
      cases hcaptured
    · rw [List.mem_singleton.mp hmem] at hcaptured
      cases hcaptured
  | release h =>
    obtain ⟨-, rfl⟩ := Tables.insertHold_some h
    rcases List.mem_append.mp hr' with hmem | hmem
    · rw [Table.eq_of_key hk.holds.rows.keys hmem hr hkey, hlive] at hcaptured
      cases hcaptured
    · rw [List.mem_singleton.mp hmem] at hcaptured
      cases hcaptured
  | @close _ _ _ x _ _ _ h =>
    obtain ⟨-, hfence, -, -, rfl, -⟩ := Closing.batch_cases h hk.holds.allocation_keys
    rcases Table.mem_update.mp hr' with ⟨hmem, -⟩ | ⟨s, hs, hp, rfl⟩
    · rw [Table.eq_of_key hk.holds.rows.keys hmem hr hkey, hlive] at hcaptured
      cases hcaptured
    -- the row closed is this one
    simp only [Bool.and_eq_true, decide_eq_true_eq] at hp
    have hsr : s = r := Table.eq_of_key hk.holds.rows.keys hs hr hkey
    obtain ⟨ho, href⟩ := Hold.key_eq.mp (hp.1.1 : s.key = (x.row.org, x.row.ref))
    have hledger : r.ledgerRef = x.row.ledgerRef := by
      rw [← hsr, Hold.ledgerRef, href]
      rfl
    rw [hledger, ← hsr, ho]
    exact hfence (hfit.1.captured.mp hcaptured)
  | @refund q plan _ h =>
    obtain ⟨-, t₁, h₁, -, -, -, -, _, rfl⟩ := RefundInput.batch_cases h
    -- the closures of a refund release
    have key : ∀ s ∈ t₁.holds, s ∈ t.holds ∨ s.state = .released := by
      refine RefundInput.closeHolds_induction
        (P := fun u => ∀ s ∈ u.holds, s ∈ t.holds ∨ s.state = .released)
        (fun y _ u u' hu hc s hs => ?_) h₁ fun s hs => Or.inl hs
      obtain ⟨-, m, -, rfl⟩ := RefundInput.closeHold_cases hc
      split at hs
      · rcases Table.mem_update.mp hs with ⟨hmem, -⟩ | ⟨_, -, -, rfl⟩
        · exact hu s hmem
        · exact Or.inr rfl
      · exact hu s hs
    rcases key r' hr' with hmem | hreleased
    · rw [Table.eq_of_key hk.holds.rows.keys hmem hr hkey, hlive] at hcaptured
      cases hcaptured
    · rw [hreleased] at hcaptured
      cases hcaptured
  | record h =>
    obtain ⟨-, -, rfl⟩ := UsageInput.batch_cases h
    exact hsame rfl
  | pay h =>
    obtain ⟨-, -, m, rfl, -⟩ := UsageRecord.batch_cases h
    exact hsame rfl
  | grant h =>
    obtain ⟨-, ⟨-, -, -, -, rfl⟩ | ⟨-, rfl⟩⟩ := Grant.batch_cases h <;> exact hsame rfl
  | grantOnDemand h =>
    obtain ⟨-, -, -, -, _, _, rfl⟩ := NativeProof.grantBatch_cases h
    exact hsame rfl
  | observe _ h => exact hsame h.holds
  | wallet => exact hsame rfl

/-! ### Runs without refunds -/

/-- A refund begins. -/
def Action.refunds : Action → Bool
  | .call _ (.refund _) => true
  | _ => false

/-- No call but a refund gives a row a reason for its closure. -/
theorem closureReason_of_writes (hn : (t.money.allocations.map Wallet.Allocation.key).Nodup)
    {client : Client} (hne : ∀ r, client.made ≠ some (.refund r)) (hw : Writes c t client t')
    (hall : ∀ h ∈ t.holds, h.closureReason = none) : ∀ h ∈ t'.holds, h.closureReason = none := by
  intro h hh
  cases hw with
  | hold h' =>
    obtain ⟨-, -, -, -, m, rfl, -⟩ := HoldInput.batch_cases h'
    rcases Table.mem_insert.mp hh with hmem | rfl
    · exact hall h hmem
    · rfl
  | release h' =>
    obtain ⟨-, rfl⟩ := Tables.insertHold_some h'
    rcases Table.mem_insert.mp hh with hmem | rfl
    · exact hall h hmem
    · rfl
  | close h' =>
    obtain ⟨-, -, -, -, rfl, -⟩ := Closing.batch_cases h' hn
    rcases Table.mem_update.mp hh with ⟨hmem, -⟩ | ⟨s, hs, -, rfl⟩
    · exact hall h hmem
    · exact hall s hs
  | @refund r => exact absurd rfl (hne r)
  | record h' =>
    obtain ⟨-, -, rfl⟩ := UsageInput.batch_cases h'
    exact hall h hh
  | pay h' =>
    obtain ⟨-, -, m, rfl, -⟩ := UsageRecord.batch_cases h'
    exact hall h hh
  | grant h' =>
    obtain ⟨-, ⟨-, -, -, -, rfl⟩ | ⟨-, rfl⟩⟩ := Grant.batch_cases h' <;> exact hall h hh
  | grantOnDemand h' =>
    obtain ⟨-, -, -, -, _, _, rfl⟩ := NativeProof.grantBatch_cases h'
    exact hall h hh
  | observe _ h' =>
    rw [h'.holds] at hh
    exact hall h hh
  | wallet => exact hall h hh

/-- Without refunds no hold is closed by one. -/
theorem unrefunded_of_reachVia {s : System}
    (h : orgs.ReachVia (fun _ a => a.refunds = false) s) :
    ∀ r ∈ s.db.holds, r.closureReason = none := by
  have key : orgs.Reachable s ∧ (∀ i r, (s.client i).made ≠ some (.refund r)) ∧
      ∀ r ∈ s.db.holds, r.closureReason = none := by
    refine Machine.ReachVia.invariant (P := fun s : System => orgs.Reachable s ∧
      (∀ i r, (s.client i).made ≠ some (.refund r)) ∧ ∀ r ∈ s.db.holds, r.closureReason = none)
      ⟨Machine.PathVia.refl _, fun i r hm => (by cases hm), fun r hr => (by cases hr)⟩ ?_ h
    rintro s a _ ⟨hr, hmade, hall⟩ hok hn
    refine ⟨hr.next hn, ?_⟩
    have hkept := kept_of_reachable hr
    refine ⟨fun i r hm => ?_, ?_⟩
    · cases turn_of_next hn i with
      | call _ ha hclient =>
        rw [hclient] at hm
        rw [ha, ← made_start hm] at hok
        cases hok
      | step c hclient =>
        rw [hclient, made_step (hkept.fit i)] at hm
        exact hmade i r hm
      | crash hclient =>
        rw [hclient] at hm
        cases hm
      | rest hclient =>
        rw [hclient] at hm
        exact hmade i r hm
    · rcases db_of_next hn with heq | ⟨i, c, heq⟩ | ⟨_, hy⟩
      · exact heq ▸ hall
      · rw [heq]
        rcases writes_of_step (s.client i) s.db c with heq | hw
        · exact heq.symm ▸ hall
        · exact closureReason_of_writes hkept.db.holds.allocation_keys (hmade i) hw hall
      · unfold Tables.registerTariff at hy
        split at hy
        · cases hy
        · rw [← Option.some.inj hy]
          exact hall
  exact key.2.2

/-! ### The life cycle -/

/-- How a client's call on holds is answered. -/
structure System.AnswersHolds (s : System) (i : ℕ) : Prop where
  /-- A hold is answered with a row of its signature: the row there is, or that row as it was
  while it was live. -/
  hold : ∀ x row, s.client i = .finished (.hold x) (.hold row) →
    (Call.hold x).About row ∧ s.db.KnowsHold row
  /-- A capture is answered with the closed row of its signature, a release with a closed row. -/
  capture : ∀ x row, s.client i = .finished (.capture x) (.hold row) →
    row ∈ s.db.holds ∧ row.key = (x.org, x.reference) ∧ row.state ≠ .live ∧
      row.captureFingerprint = some x.signature
  release : ∀ org ref row, s.client i = .finished (.release org ref) (.hold row) →
    row ∈ s.db.holds ∧ row.key = (org, ref) ∧ row.state ≠ .live
  /-- A call that began when the row of its own signature was closed is answered with it by its
  first statement.  A capture prepares first, and may be refused before it reads. -/
  hold_again : ∀ x, (s.client i).made = some (.hold x) → ∀ r ∈ (s.started i).holds,
    (Call.hold x).About r → r.state ≠ .live →
      r ∈ s.db.holds ∧
        (s.client i = .holding x false .looking ∨ s.client i = .finished (.hold x) (.hold r))
  capture_again : ∀ x, (s.client i).made = some (.capture x) → ∀ r ∈ (s.started i).holds,
    r.key = (x.org, x.reference) → r.captureFingerprint = some x.signature →
      r ∈ s.db.holds ∧
        (s.client i = .capturing x ∨ s.client i = .finished (.capture x) (.hold r) ∨
          s.client i = (Call.capture x).throws .refused)
  /-- A call of another signature than its row's has changed nothing by its own statements, and
  is only refused. -/
  hold_other : ∀ x, (s.client i).made = some (.hold x) → ∀ r ∈ s.db.holds,
    r.key = (x.org, x.reference) → r.fingerprint ≠ some x.signature →
      s.changes i = 0 ∧
        ∀ reply, s.client i = .finished (.hold x) reply → ∃ code, reply = .thrown code
  capture_other : ∀ x, (s.client i).made = some (.capture x) → ∀ r ∈ s.db.holds,
    r.key = (x.org, x.reference) → ∀ f, r.captureFingerprint = some f → f ≠ x.signature →
      s.changes i = 0 ∧
        ∀ reply, s.client i = .finished (.capture x) reply → ∃ code, reply = .thrown code

theorem answersHolds_of_reachable {s : System} (h : orgs.Reachable s) (i : ℕ) :
    s.AnswersHolds i := by
  have hk := kept_of_reachable h
  have hkeys := hk.db.holds.rows.keys
  have hfit := hk.fit i
  have hsettles := settles_of_reachable h i
  obtain ⟨hk₀, hg₀, hrepeats⟩ := repeats_of_reachable h i
  -- a closed row that a call knows is the row there is
  have hmem : ∀ {row : Hold}, s.db.KnowsHold row → row.state ≠ .live → row ∈ s.db.holds := by
    rintro _ ⟨r, hr, he⟩ hclosed
    rwa [he.eq_of_closed hclosed] at hr
  constructor
  · intro x row hfin
    rw [hfin] at hsettles
    exact ⟨hsettles.1.1, hsettles.2⟩
  · intro x row hfin
    rw [hfin] at hsettles
    obtain ⟨⟨hkey, hclosed, hf⟩, hknows⟩ := hsettles
    exact ⟨hmem hknows hclosed, hkey, hclosed, hf⟩
  · intro org ref row hfin
    rw [hfin] at hsettles
    obtain ⟨⟨hkey, hclosed⟩, hknows⟩ := hsettles
    exact ⟨hmem hknows hclosed, hkey, hclosed⟩
  · intro x hmade r hr ha hclosed
    exact ⟨hg₀.mem_of_closed hr hclosed, hrepeats.hold_same x hmade r hr ha hclosed⟩
  · intro x hmade r hr hkey hf
    have hclosed := ((hk₀.holds.sound hr).of_signature hf).1
    exact ⟨hg₀.mem_of_closed hr hclosed, hrepeats.capture_same x hmade r hr hkey hf⟩
  · intro x hmade r hr hkey hne
    refine ⟨?_, fun reply hfin => ?_⟩
    · by_contra hchanges
      obtain ⟨_, hr', ha⟩ := hold_changed h hmade hchanges
      obtain rfl := Table.eq_of_key hkeys hr hr' (hkey.trans ha.1.symm)
      exact hne ha.2
    · rw [hfin] at hfit hsettles
      cases reply with
      | thrown code => exact ⟨code, rfl⟩
      | hold =>
        obtain ⟨⟨ha, -⟩, _, hr', he⟩ := hsettles
        have ha' := ha.evolve he
        obtain rfl := Table.eq_of_key hkeys hr hr' (hkey.trans ha'.1.symm)
        exact absurd ha'.2 hne
      | usage u | receipt row | generation n | done => cases hfit
  · intro x hmade r hr hkey f hf hne
    refine ⟨?_, fun reply hfin => ?_⟩
    · by_contra hchanges
      obtain ⟨_, hr', hkey', -, hsig⟩ := capture_changed h hmade hchanges
      obtain rfl := Table.eq_of_key hkeys hr hr' (hkey.trans hkey'.symm)
      exact hne (hsig f hf)
    · rw [hfin] at hfit hsettles
      cases reply with
      | thrown code => exact ⟨code, rfl⟩
      | hold =>
        obtain ⟨⟨hkey', hclosed, hf'⟩, hknows⟩ := hsettles
        obtain rfl := Table.eq_of_key hkeys hr (hmem hknows hclosed) (hkey.trans hkey'.symm)
        rw [hf] at hf'
        exact absurd (Option.some.inj hf') hne
      | usage u | receipt row | generation n | done => cases hfit

/-- **The life cycle of a hold.**  Each organization and reference has at most one hold row, and
a row that has left `live` never changes again.  Closed, it is captured and released as a
whole: captured (of more than nothing) or released by a batch stamped before its deadline,
expired by one stamped at it or after it; only a refund releases a hold whatever the time, with
a reason of its own.  The wallet holds and has allocated the amount of a live hold, nothing of
any other, and has allocated to captures what the row says is captured.  Nothing is captured of
a hold with an allocation on a frozen lot.  And each call on a hold is answered as
`AnswersHolds` says, where what `prepare` and the funding on demand write counts as calls of
their own. -/
theorem hold_lifecycle {s : System} (h : orgs.Reachable s) :
    (s.db.holds.map Hold.key).Nodup ∧
      (∀ s', orgs.Path s s' → ∀ r ∈ s.db.holds, ∃ r' ∈ s'.db.holds, r.Evolves r') ∧
      (∀ r ∈ s.db.holds, r.Sound ∧ r.Booked s.db.money) ∧
      (orgs.ReachVia (fun _ a => a.refunds = false) s →
        ∀ r ∈ s.db.holds, r.closureReason = none) ∧
      (∀ org ref, s.db.held org ref = none → Blank s.db.money org (holdRef ref)) ∧
      (∀ a s', orgs.next s a = some s' → ∀ r ∈ s.db.holds, r.state = .live →
        ∀ r' ∈ s'.db.holds, r'.key = r.key → r'.state = .captured →
          s.db.money.holdFenced r.org r.ledgerRef = false) ∧
      ∀ i, s.AnswersHolds i := by
  have hk := kept_of_reachable h
  refine ⟨hk.db.holds.rows.keys, fun s' hp => (grows_of_path h hp).holds,
    fun r hr => ⟨hk.db.holds.sound hr, hk.db.holds.booked hr⟩, unrefunded_of_reachVia,
    fun org ref hnone => hk.db.holds.blank hnone, fun a s' hn r hr hlive r' hr' hkey hc => ?_,
    fun i => answersHolds_of_reachable h i⟩
  have hsame : s'.db.holds = s.db.holds → s.db.money.holdFenced r.org r.ledgerRef = false := by
    intro hh
    rw [eq_of_same_holds hk.db hh hr hr' hkey, hlive] at hc
    cases hc
  cases a with
  | step i c =>
    simp only [orgs, Option.some.injEq] at hn
    subst hn
    rcases writes_of_step (s.client i) s.db (c.atClock s.clock) with heq | hw
    · exact hsame (congrArg Tables.holds heq)
    · exact unfenced_of_captured hk.db (hk.fit i) hw hr hlive hr' hkey hc
  | call =>
    cases hn
    exact hsame rfl
  | crash i =>
    cases hn
    exact hsame rfl
  | tick =>
    simp only [orgs] at hn
    split at hn
    · cases hn
      exact hsame rfl
    · cases hn
  | register y =>
    simp only [orgs, Option.map_eq_some_iff, Tables.registerTariff] at hn
    obtain ⟨_, ht', rfl⟩ := hn
    split at ht'
    · cases ht'
    · cases ht'
      exact hsame rfl

/-! ### A hold that is captured -/

/-- A hold of 60 out of a lot of 100, captured in part, and the capture made again. -/
def capturedRun : List Action :=
  let capture : CaptureInput := { org := "org", reference := "job", amountMicros := 40,
                                  actualMicros := "40", measurementFingerprint := "f" }
  .register ⟨"r", 0, 60, []⟩ ::
  .call 0 (.wallet (.fund { org := "org", fundingRef := "lot", amountMicros := 100,
                            consumptionClass := .subscription })) ::
    List.replicate 6 (.step 0 { now := 0 }) ++
  .call 0 (.hold { org := "org", reference := "job", amountMicros := 60, pricingRevision := "r",
                   measurementFingerprint := "f" }) :: List.replicate 8 (.step 0 { now := 0 }) ++
  .tick 10 :: .call 0 (.capture capture) :: List.replicate 5 (.step 0 { now := 0 }) ++
  .call 1 (.capture capture) :: List.replicate 1 (.step 1 { now := 0 })

theorem hold_lifecycle_capturedRun : ∃ s, orgs.Reachable s ∧
    (∃ r ∈ s.db.holds, r.state = .captured ∧ r.capturedMicros = 40 ∧ r.releasedMicros = 20) ∧
      (∀ r ∈ s.db.holds, r.Sound ∧ r.Booked s.db.money) ∧ s.AnswersHolds 1 := by
  obtain ⟨s, hr, hp⟩ := Machine.exists_reachable_of_run (M := orgs) capturedRun
    (fun s => s.db.holds.any fun r =>
      r.state = .captured ∧ r.capturedMicros = 40 ∧ r.releasedMicros = 20) (by decide +kernel)
  have h := hold_lifecycle hr
  exact ⟨s, hr, by simpa using hp, h.2.2.1, h.2.2.2.2.2.2 1⟩

/-- A hold of 60 out of a checkout of 100, which is frozen, and at the deadline of the hold
refunded in part. -/
def lateRefundRun : List Action :=
  let g : Grant := { org := "org", fundingRef := "lot", kind := .purchased, amountMicros := 100,
                     expiresAt := none, sourceType := .checkout, sourceId := "cs",
                     chargeId := "ch", considerationMicros := 100 }
  .register ⟨"r", 0, 60, []⟩ :: .call 0 (.grant g) :: List.replicate 3 (.step 0 { now := 0 }) ++
  .call 0 (.hold { org := "org", reference := "job", amountMicros := 60, pricingRevision := "r",
                   measurementFingerprint := "f" }) :: List.replicate 8 (.step 0 { now := 0 }) ++
  .call 0 (.freezeFunding "org" "lot") :: .step 0 { now := 0 } :: .tick 60000 ::
  .call 0 (.refund { refundId := "re_1", grant := g, amountMicros := 30,
                     cumulativeRefundedMicros := 30, fenceGeneration := 1 }) ::
    List.replicate 8 (.step 0 { now := 0 })

/-- A refund releases a live hold of its lot at the deadline, where a release could not. -/
theorem refund_releases_late :
    ¬∀ s, orgs.Reachable s → ∀ r ∈ s.db.holds, r.state = .captured ∨ r.state = .released →
      ∀ e ∈ r.expiresAt, ∃ at' ∈ r.closedAt, at' < e := by
  intro hall
  obtain ⟨s, hr, hp⟩ := Machine.exists_reachable_of_run (M := orgs) lateRefundRun
    (fun s => s.db.holds.any fun r => r.state = .released ∧ r.closureReason = some "refund" ∧
      r.expiresAt = some 60000 ∧ r.closedAt = some 60000) (by decide +kernel)
  simp only [List.any_eq_true, decide_eq_true_eq] at hp
  obtain ⟨r, hmem, hstate, -, hexpires, hclosed⟩ := hp
  obtain ⟨at', hat, hlt⟩ := hall s hr r hmem (Or.inr hstate) 60000 hexpires
  rw [hclosed] at hat
  exact absurd hlt (by rw [← Option.some.inj hat]; exact Nat.lt_irrefl _)

end Takoserver.Org
